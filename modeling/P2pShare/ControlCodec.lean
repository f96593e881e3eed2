import P2pShare.Instances
import P2pShare.MessagePack

/-!
# Control messages in MessagePack

What `rmp_serde::to_vec_named` makes of a `ControlMessage`: an enumeration by
the names of its variants, a record as a map from field names, the session id as
an array of its bytes.  The lengths of the encodings are stated for every
message, since a Noise message hides the bytes and not how many there are.
-/

namespace P2pShare

open ByteStream MessagePack

/-! ## Records -/

def sessionIdCodec : Codec Bytes :=
  uint.codec.array.via (fun bytes => bytes.map UInt8.toNat)
    (fun values => some (values.map UInt8.ofNat)) (by
      intro bytes
      rw [List.map_map, Option.some.injEq]
      calc
        bytes.map (UInt8.ofNat ∘ UInt8.toNat) = bytes.map id :=
          List.map_congr_left fun byte _ => UInt8.ofNat_toNat
        _ = bytes := List.map_id _)

def streamingConfigCodec : Codec StreamingConfig :=
  (Codec.map 2 ((uint.codec.keyed "buffer_chunks").pair
    (uint.codec.keyed "local_port"))).via
    (fun config => (config.bufferChunks, config.localPort))
    (fun fields => some ⟨fields.1, fields.2⟩) (fun _ => rfl)

def transferModeCodec : Codec TransferMode where
  put
    | .bulk => Tag.put ⟨"Bulk", false⟩
    | .streaming config =>
        Tag.put ⟨"Streaming", true⟩ ++ streamingConfigCodec.put config
  get := fun input =>
    (Tag.get input).bind fun (tag, rest) =>
      if tag = ⟨"Bulk", false⟩ then some (.bulk, rest)
      else if tag = ⟨"Streaming", true⟩ then
        (streamingConfigCodec.get rest).map fun (config, rest) =>
          (.streaming config, rest)
      else none
  Fits
    | .bulk => True
    | .streaming config => streamingConfigCodec.Fits config
  get_put := by
    intro mode hfits rest
    cases mode with
    | bulk =>
        have htag : textLength.Fits ("Bulk").utf8ByteSize := by decide
        rw [Tag.get_put htag, Option.bind_some]
        rfl
    | streaming config =>
        have htag : textLength.Fits ("Streaming").utf8ByteSize := by decide
        rw [List.append_assoc, Tag.get_put htag, Option.bind_some]
        dsimp only
        rw [if_neg (by decide), if_pos rfl, streamingConfigCodec.get_put hfits,
          Option.map_some]

/-- The fields of a manifest in the order of the record. -/
abbrev ManifestFields :=
  Bytes × String × String × ℕ × ℕ × ℕ × TransferMode × ℕ

def manifestFields (manifest : FileManifest) : ManifestFields :=
  (manifest.sessionId, manifest.filename, manifest.mimeType,
    manifest.totalSize, manifest.chunkSize, manifest.chunkCount,
    manifest.transferMode, manifest.createdAt)

def buildFields : ManifestFields → Option FileManifest
  | (sessionId, filename, mimeType, totalSize, chunkSize, chunkCount,
      transferMode, createdAt) =>
      if h : sessionId.length = 20 ∧ totalSize < 2 ^ 64 ∧ chunkSize < 2 ^ 32 ∧
          chunkCount < 2 ^ 32 then
        some
          { sessionId, filename, mimeType, totalSize, chunkSize, chunkCount
            transferMode, createdAt
            sessionId_length := h.1
            totalSize_lt := h.2.1
            chunkSize_lt := h.2.2.1
            chunkCount_lt := h.2.2.2 }
      else none

theorem buildFields_manifestFields (manifest : FileManifest) :
    buildFields (manifestFields manifest) = some manifest := by
  unfold buildFields manifestFields
  dsimp only
  rw [dif_pos ⟨manifest.sessionId_length, manifest.totalSize_lt,
    manifest.chunkSize_lt, manifest.chunkCount_lt⟩]

def manifestCodec : Codec FileManifest :=
  (Codec.map 8
    ((sessionIdCodec.keyed "session_id").pair
      ((text.keyed "filename").pair
        ((text.keyed "mime_type").pair
          ((uint.codec.keyed "total_size").pair
            ((uint.codec.keyed "chunk_size").pair
              ((uint.codec.keyed "chunk_count").pair
                ((transferModeCodec.keyed "transfer_mode").pair
                  (uint.codec.keyed "created_at"))))))))).via
    manifestFields buildFields buildFields_manifestFields

def haveChunksCodec : Codec (List ℕ) :=
  Codec.map 1 (uint.codec.array.keyed "have_chunks")

def indexCodec : Codec ℕ := Codec.map 1 (uint.codec.keyed "index")

def bytesCodec : Codec ℕ := Codec.map 1 (uint.codec.keyed "bytes")

def errorCodec : Codec (ℕ × String) :=
  Codec.map 2 ((uint.codec.keyed "code").pair (text.keyed "message"))

/-! ## The enumeration -/

namespace ControlMessage

def tag : ControlMessage → Tag
  | manifest _ => ⟨"Manifest", true⟩
  | manifestAck => ⟨"ManifestAck", false⟩
  | resumeRequest _ => ⟨"ResumeRequest", true⟩
  | chunkNack _ => ⟨"ChunkNack", true⟩
  | progress _ => ⟨"Progress", true⟩
  | complete => ⟨"Complete", false⟩
  | error _ _ => ⟨"Error", true⟩

def putContent : ControlMessage → Bytes
  | .manifest offered => manifestCodec.put offered
  | resumeRequest haveChunks => haveChunksCodec.put haveChunks
  | chunkNack index => indexCodec.put index
  | progress bytes => bytesCodec.put bytes
  | error code message => errorCodec.put (code, message)
  | manifestAck | complete => []

def getContent (tag : Tag) (input : Bytes) : Option (ControlMessage × Bytes) :=
  if tag = ⟨"Manifest", true⟩ then
    (manifestCodec.get input).map (Prod.map manifest id)
  else if tag = ⟨"ManifestAck", false⟩ then some (manifestAck, input)
  else if tag = ⟨"ResumeRequest", true⟩ then
    (haveChunksCodec.get input).map (Prod.map resumeRequest id)
  else if tag = ⟨"ChunkNack", true⟩ then
    (indexCodec.get input).map (Prod.map chunkNack id)
  else if tag = ⟨"Progress", true⟩ then
    (bytesCodec.get input).map (Prod.map progress id)
  else if tag = ⟨"Complete", false⟩ then some (complete, input)
  else if tag = ⟨"Error", true⟩ then
    (errorCodec.get input).map (Prod.map (fun (code, message) =>
      error code message) id)
  else none

/-- Every integer is in the range of its type, and every length below
`2 ^ 32`. -/
def Fits : ControlMessage → Prop
  | .manifest offered => manifestCodec.Fits offered
  | resumeRequest haveChunks => haveChunksCodec.Fits haveChunks
  | chunkNack index => indexCodec.Fits index
  | progress bytes => bytesCodec.Fits bytes
  | error code message => errorCodec.Fits (code, message)
  | manifestAck | complete => True

theorem getContent_putContent {message : ControlMessage}
    (hfits : message.Fits) (rest : Bytes) :
    getContent message.tag (message.putContent ++ rest) =
      some (message, rest) := by
  cases message with
  | manifest offered =>
      have hget := manifestCodec.get_put hfits rest
      simp [getContent, tag, putContent, hget]
  | manifestAck => rfl
  | resumeRequest haveChunks =>
      have hget := haveChunksCodec.get_put hfits rest
      simp [getContent, tag, putContent, hget]
  | chunkNack index =>
      have hget := indexCodec.get_put hfits rest
      simp [getContent, tag, putContent, hget]
  | progress bytes =>
      have hget := bytesCodec.get_put hfits rest
      simp [getContent, tag, putContent, hget]
  | complete => rfl
  | error code message =>
      have hget := errorCodec.get_put hfits rest
      simp [getContent, tag, putContent, hget]

theorem tag_fits (message : ControlMessage) :
    textLength.Fits message.tag.name.utf8ByteSize := by
  cases message <;> simp only [tag] <;> decide

def codec : Codec ControlMessage where
  put := fun message => message.tag.put ++ message.putContent
  get := fun input =>
    (Tag.get input).bind fun (tag, rest) => getContent tag rest
  Fits := Fits
  get_put := by
    intro message hfits rest
    rw [List.append_assoc, Tag.get_put message.tag_fits, Option.bind_some]
    exact getContent_putContent hfits rest

end ControlMessage

theorem guessMime_utf8ByteSize_lt (name : String) :
    (guessMime name).utf8ByteSize < 2 ^ 32 := by
  unfold guessMime
  dsimp only
  split_ifs <;> decide

/-- A manifest the sender builds fits unless the name of the file is longer than
any file system has. -/
theorem ControlMessage.manifest_fits {source : ManifestSource}
    (hname : source.filename.utf8ByteSize < 2 ^ 32)
    (hclock : source.createdAt < 2 ^ 64) :
    (ControlMessage.manifest (buildManifest source)).Fits := by
  have hcount := (buildManifest source).chunkCount_lt
  have hsize := (buildManifest source).chunkSize_lt
  have hid : sessionIdCodec.Fits source.sessionId := by
    constructor
    · rw [List.length_map, source.sessionId_length]
      decide
    · intro value hvalue
      rcases List.mem_map.mp hvalue with ⟨byte, _, rfl⟩
      have hbyte : byte.toNat < 256 := byte.toNat_lt
      exact uint_fits (by omega)
  refine ⟨by decide, ⟨by decide, hid⟩, ⟨by decide, textLength_fits hname⟩,
    ⟨by decide, textLength_fits (guessMime_utf8ByteSize_lt _)⟩,
    ⟨by decide, uint_fits source.totalSize_lt⟩, ⟨by decide, uint_fits ?_⟩,
    ⟨by decide, uint_fits ?_⟩, ⟨by decide, trivial⟩,
    ⟨by decide, uint_fits hclock⟩⟩
  · exact hsize.trans (by norm_num)
  · exact hcount.trans (by norm_num)

/-! ## Lengths -/

theorem length_keyed_put {α : Type} (name : String) (codec : Codec α) (value : α) :
    ((codec.keyed name).put value).length =
      textSize name + (codec.put value).length := by
  simp only [Codec.keyed, List.length_append, length_putText]

theorem length_map_put {α : Type} {count : ℕ} (hcount : count < 16)
    (codec : Codec α) (value : α) :
    ((Codec.map count codec).put value).length =
      1 + (codec.put value).length := by
  have hform : mapLength.size count = 1 := by
    unfold Form.size
    rw [if_pos (by simpa [mapLength] using hcount)]
  simp only [Codec.map, List.length_append, Form.length_put, hform]

namespace FileManifest

/-- The bytes of the encoding without those of the transfer mode and the names
of the fields. -/
def packedSize (manifest : FileManifest) : ℕ :=
  (manifest.sessionId.map fun byte => uint.size byte.toNat).sum +
    textSize manifest.filename + textSize manifest.mimeType +
    uint.size manifest.totalSize + uint.size manifest.chunkSize +
    uint.size manifest.chunkCount + uint.size manifest.createdAt

end FileManifest

namespace ControlMessage

def contentSize : ControlMessage → ℕ
  | .manifest offered =>
      93 + offered.packedSize +
        (transferModeCodec.put offered.transferMode).length
  | manifestAck => 0
  | resumeRequest haveChunks =>
      13 + arrayLength.size haveChunks.length + (haveChunks.map uint.size).sum
  | chunkNack index => 7 + uint.size index
  | progress bytes => 7 + uint.size bytes
  | complete => 0
  | error code message => 14 + uint.size code + textSize message

def packedSize (message : ControlMessage) : ℕ :=
  message.tag.size + message.contentSize

theorem length_sessionIdCodec_put {sessionId : Bytes}
    (hlength : sessionId.length = 20) :
    (sessionIdCodec.put sessionId).length =
      3 + (sessionId.map fun byte => uint.size byte.toNat).sum := by
  have hcount : arrayLength.size 20 = 3 := by decide
  simp only [sessionIdCodec, Codec.via, Codec.length_array_put, List.length_map,
    hlength, hcount, List.map_map]
  congr 3
  funext byte
  exact Form.length_put _ _

theorem length_manifestCodec_put (offered : FileManifest) :
    (manifestCodec.put offered).length =
      93 + offered.packedSize +
        (transferModeCodec.put offered.transferMode).length := by
  have hid := length_sessionIdCodec_put offered.sessionId_length
  have hnames : textSize "session_id" + textSize "filename" +
      textSize "mime_type" + textSize "total_size" + textSize "chunk_size" +
      textSize "chunk_count" + textSize "transfer_mode" +
      textSize "created_at" = 89 := by
    decide
  simp only [manifestCodec, Codec.via, length_map_put (show 8 < 16 by norm_num),
    Codec.pair, List.length_append, length_keyed_put, manifestFields, hid, text,
    length_putText, Form.codec, Form.length_put, FileManifest.packedSize]
  omega

theorem length_putContent (message : ControlMessage) :
    message.putContent.length = message.contentSize := by
  have hone : (1 : ℕ) < 16 := by norm_num
  cases message with
  | manifest offered => exact length_manifestCodec_put offered
  | manifestAck => rfl
  | complete => rfl
  | resumeRequest haveChunks =>
      have hname : textSize "have_chunks" = 12 := by decide
      have hitems : (haveChunks.map fun index =>
          (uint.codec.put index).length) = haveChunks.map uint.size :=
        List.map_congr_left fun index _ => Form.length_put _ _
      simp only [putContent, contentSize, haveChunksCodec, length_map_put hone,
        length_keyed_put, Codec.length_array_put, hname, hitems]
      omega
  | chunkNack index =>
      have hname : textSize "index" = 6 := by decide
      simp only [putContent, contentSize, indexCodec, length_map_put hone,
        length_keyed_put, Form.codec, Form.length_put, hname]
      omega
  | progress bytes =>
      have hname : textSize "bytes" = 6 := by decide
      simp only [putContent, contentSize, bytesCodec, length_map_put hone,
        length_keyed_put, Form.codec, Form.length_put, hname]
      omega
  | error code message =>
      have hnames : textSize "code" + textSize "message" = 13 := by decide
      simp only [putContent, contentSize, errorCodec,
        length_map_put (show 2 < 16 by norm_num), Codec.pair, List.length_append,
        length_keyed_put, Form.codec, Form.length_put, text, length_putText]
      omega

theorem length_codec_put (message : ControlMessage) :
    (codec.put message).length = message.packedSize := by
  simp only [codec, List.length_append, Tag.length_put, length_putContent,
    packedSize]

end ControlMessage

/-! ## `rmp_serde` -/

/-- What is relied on: a message whose integers are in range is encoded as
MessagePack. -/
def MsgPack.IsRmpSerde (msgPack : MsgPack) : Prop :=
  ∀ message : ControlMessage, message.Fits →
    msgPack.encode message = ControlMessage.codec.put message

theorem MsgPack.IsRmpSerde.length_encode {msgPack : MsgPack}
    (hrmp : msgPack.IsRmpSerde) {message : ControlMessage}
    (hfits : message.Fits) :
    (msgPack.encode message).length = message.packedSize := by
  rw [hrmp message hfits, ControlMessage.length_codec_put]

/-- The byte `0xc1`, which MessagePack leaves free, begins what stands for a
message that no value of the Rust type is. -/
def rmpSerde : MsgPack where
  encode := fun message =>
    if ControlMessage.codec.get (ControlMessage.codec.put message) =
        some (message, []) then
      ControlMessage.codec.put message
    else toBe 1 0xc1 ++ fieldCodec.encode message
  decode := fun input =>
    match ControlMessage.codec.get input with
    | some (message, _) => some message
    | none => fieldCodec.decode (input.drop 1)
  decode_encode := by
    intro message
    by_cases hread : ControlMessage.codec.get
        (ControlMessage.codec.put message) = some (message, [])
    · rw [if_pos hread, hread]
    · have hmap : mapLength.get (toBe 1 0xc1 ++ fieldCodec.encode message) =
          none :=
        Form.get_eq_none (by decide) _ (by decide) (by decide)
      have htext : textLength.get (toBe 1 0xc1 ++ fieldCodec.encode message) =
          none :=
        Form.get_eq_none (by decide) _ (by decide) (by decide)
      have hnone : ControlMessage.codec.get
          (toBe 1 0xc1 ++ fieldCodec.encode message) = none := by
        simp only [ControlMessage.codec, Tag.get, hmap, getText, htext,
          Option.bind_none, Option.map_none]
      have hdrop : (toBe 1 0xc1 ++ fieldCodec.encode message).drop 1 =
          fieldCodec.encode message := rfl
      rw [if_neg hread, hnone]
      dsimp only
      rw [hdrop]
      exact fieldCodec.decode_encode message

theorem rmpSerde_isRmpSerde : rmpSerde.IsRmpSerde := by
  intro message hfits
  have hread := ControlMessage.codec.get_put hfits []
  rw [List.append_nil] at hread
  exact if_pos hread

end P2pShare
