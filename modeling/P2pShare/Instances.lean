import P2pShare.Session

/-!
# A Noise direction and a message codec

A Noise direction that can be run: its reads look the ciphertext up among the
sealed messages.  Beside it stands a codec of control messages as lists of
self-delimiting numbers, which has room for the messages whose integers are past
the range of their Rust type and that no MessagePack encodes.
-/

namespace P2pShare

open ByteStream

/-! ## Noise by lookup -/

/-- The ciphertext is the plaintext and sixteen bytes of tag. -/
def lookupNoise : Noise where
  cipher := fun _ plaintext => plaintext ++ List.replicate 16 0
  readMessage := fun log nonce ciphertext =>
    (log.find? fun entry =>
      entry.nonce = nonce ∧ entry.ciphertext = ciphertext).map Sealed.plaintext
  cipher_length := by simp
  authentic := by
    intro log nonce ciphertext plaintext hread
    rcases Option.map_eq_some_iff.mp hread with ⟨entry, hfind, rfl⟩
    have hmatch := List.find?_some hfind
    simp only [decide_eq_true_eq] at hmatch
    rcases hmatch with ⟨rfl, rfl⟩
    exact List.mem_of_find?_eq_some hfind

/-- What the receiver makes of a ciphertext of `lookupNoise` by its tag. -/
def tagRead (_ : ℕ) (ciphertext : Bytes) : Option Bytes :=
  let length := ciphertext.length - 16
  if ciphertext.drop length = List.replicate 16 0 then
    some (ciphertext.take length)
  else none

/-! ## Numbers

The digits are in base 255, shifted by one, the least first; zero ends them. -/

def digits : ℕ → ℕ → Bytes
  | 0, _ => []
  | fuel + 1, value =>
      if value = 0 then []
      else UInt8.ofNat (value % 255 + 1) :: digits fuel (value / 255)

def putNat (value : ℕ) : Bytes := digits value value ++ [0]

def getNat : Bytes → Option (ℕ × Bytes)
  | [] => none
  | byte :: rest =>
      if byte = 0 then some (0, rest)
      else (getNat rest).map fun (high, rest) =>
        (byte.toNat - 1 + 255 * high, rest)

theorem getNat_digits {fuel value : ℕ} (hfuel : value ≤ fuel)
    (rest : Bytes) :
    getNat (digits fuel value ++ 0 :: rest) = some (value, rest) := by
  induction fuel generalizing value with
  | zero =>
      have hzero : value = 0 := Nat.le_zero.mp hfuel
      subst hzero
      rfl
  | succ fuel ih =>
      by_cases hzero : value = 0
      · subst hzero
        rfl
      · have hdigit : (UInt8.ofNat (value % 255 + 1)).toNat =
            value % 255 + 1 := by
          rw [UInt8.toNat_ofNat']
          exact Nat.mod_eq_of_lt (by omega)
        have hne : UInt8.ofNat (value % 255 + 1) ≠ 0 := by
          intro heq
          rw [heq] at hdigit
          simp at hdigit
        have hsmaller : value / 255 ≤ fuel := by omega
        rw [digits, if_neg hzero, List.cons_append, getNat, if_neg hne,
          ih hsmaller, Option.map_some]
        simp only [hdigit, Option.some.injEq, Prod.mk.injEq, and_true]
        omega

theorem getNat_putNat (value : ℕ) (rest : Bytes) :
    getNat (putNat value ++ rest) = some (value, rest) := by
  unfold putNat
  rw [List.append_assoc]
  exact getNat_digits le_rfl rest

/-! ## Sequences -/

section Sequences

variable {α : Type} (put : α → Bytes) (get : Bytes → Option (α × Bytes))

def getMany : ℕ → Bytes → Option (List α × Bytes)
  | 0, input => some ([], input)
  | count + 1, input =>
      (get input).bind fun (item, rest) =>
        (getMany count rest).map fun (items, rest) => (item :: items, rest)

def putSeq (items : List α) : Bytes :=
  putNat items.length ++ items.flatMap put

def getSeq (input : Bytes) : Option (List α × Bytes) :=
  (getNat input).bind fun (count, rest) => getMany get count rest

variable {put get}

theorem getSeq_putSeq
    (hitem : ∀ item rest, get (put item ++ rest) = some (item, rest))
    (items : List α) (rest : Bytes) :
    getSeq get (putSeq put items ++ rest) = some (items, rest) := by
  have hmany : getMany get items.length (items.flatMap put ++ rest) =
      some (items, rest) := by
    induction items with
    | nil => rfl
    | cons item items ih =>
        rw [List.length_cons, getMany, List.flatMap_cons, List.append_assoc,
          hitem, Option.bind_some]
        dsimp only
        rw [ih]
        rfl
  unfold getSeq putSeq
  rw [List.append_assoc, getNat_putNat]
  exact hmany

end Sequences

/-! ## Messages -/

def codes (text : String) : List ℕ := text.toList.map Char.toNat

def ofCodes (codes : List ℕ) : String := String.ofList (codes.map Char.ofNat)

theorem ofCodes_codes (text : String) : ofCodes (codes text) = text := by
  have hchars : (text.toList.map Char.toNat).map Char.ofNat = text.toList := by
    rw [List.map_map]
    calc
      text.toList.map (Char.ofNat ∘ Char.toNat) = text.toList.map id :=
        List.map_congr_left fun char _ => Char.ofNat_toNat char
      _ = text.toList := List.map_id _
  unfold ofCodes codes
  rw [hchars]
  exact String.ofList_toList

def modeFields : TransferMode → List ℕ
  | .bulk => []
  | .streaming config => [config.bufferChunks, config.localPort]

def toFields : ControlMessage → List (List ℕ)
  | .manifest manifest =>
      [[0], manifest.sessionId.map UInt8.toNat, codes manifest.filename,
        codes manifest.mimeType,
        [manifest.totalSize, manifest.chunkSize, manifest.chunkCount,
          manifest.createdAt],
        modeFields manifest.transferMode]
  | .manifestAck => [[1]]
  | .resumeRequest haveChunks => [[2], haveChunks]
  | .chunkNack index => [[3], [index]]
  | .progress bytes => [[4], [bytes]]
  | .complete => [[5]]
  | .error code message => [[6], [code], codes message]

def ofModeFields : List ℕ → Option TransferMode
  | [] => some .bulk
  | [bufferChunks, localPort] => some (.streaming ⟨bufferChunks, localPort⟩)
  | _ => none

def ofManifestFields (sessionId filename mimeType numbers mode : List ℕ) :
    Option FileManifest :=
  match numbers, ofModeFields mode with
  | [totalSize, chunkSize, chunkCount, createdAt], some transferMode =>
      if h : (sessionId.map UInt8.ofNat).length = 20 ∧ totalSize < 2 ^ 64 ∧
          chunkSize < 2 ^ 32 ∧ chunkCount < 2 ^ 32 then
        some
          { sessionId := sessionId.map UInt8.ofNat
            filename := ofCodes filename
            mimeType := ofCodes mimeType
            totalSize, chunkSize, chunkCount, transferMode, createdAt
            sessionId_length := h.1
            totalSize_lt := h.2.1
            chunkSize_lt := h.2.2.1
            chunkCount_lt := h.2.2.2 }
      else none
  | _, _ => none

def ofFields : List (List ℕ) → Option ControlMessage
  | [[0], sessionId, filename, mimeType, numbers, mode] =>
      (ofManifestFields sessionId filename mimeType numbers mode).map
        ControlMessage.manifest
  | [[1]] => some .manifestAck
  | [[2], haveChunks] => some (.resumeRequest haveChunks)
  | [[3], [index]] => some (.chunkNack index)
  | [[4], [bytes]] => some (.progress bytes)
  | [[5]] => some .complete
  | [[6], [code], message] => some (.error code (ofCodes message))
  | _ => none

theorem ofModeFields_modeFields (mode : TransferMode) :
    ofModeFields (modeFields mode) = some mode := by
  cases mode <;> rfl

theorem ofManifestFields_toFields (manifest : FileManifest) :
    ofManifestFields (manifest.sessionId.map UInt8.toNat)
        (codes manifest.filename) (codes manifest.mimeType)
        [manifest.totalSize, manifest.chunkSize, manifest.chunkCount,
          manifest.createdAt]
        (modeFields manifest.transferMode) = some manifest := by
  have hbytes : (manifest.sessionId.map UInt8.toNat).map UInt8.ofNat =
      manifest.sessionId := by
    rw [List.map_map]
    calc
      manifest.sessionId.map (UInt8.ofNat ∘ UInt8.toNat) =
          manifest.sessionId.map id :=
        List.map_congr_left fun byte _ => UInt8.ofNat_toNat
      _ = manifest.sessionId := List.map_id _
  simp only [ofManifestFields, ofModeFields_modeFields, hbytes, ofCodes_codes]
  rw [dif_pos ⟨manifest.sessionId_length, manifest.totalSize_lt,
    manifest.chunkSize_lt, manifest.chunkCount_lt⟩]

theorem ofFields_toFields (message : ControlMessage) :
    ofFields (toFields message) = some message := by
  cases message with
  | manifest manifest =>
      simp only [toFields, ofFields, ofManifestFields_toFields, Option.map_some]
  | error code message =>
      simp only [toFields, ofFields, ofCodes_codes]
  | _ => rfl

/-- For messages that are no value of the Rust type. -/
def fieldCodec : MsgPack where
  encode := fun message => putSeq (putSeq putNat) (toFields message)
  decode := fun bytes =>
    (getSeq (getSeq getNat) bytes).bind fun (fields, _) => ofFields fields
  decode_encode := by
    intro message
    have hread := getSeq_putSeq (getSeq_putSeq getNat_putNat)
      (toFields message) []
    rw [List.append_nil] at hread
    rw [hread]
    exact ofFields_toFields message

/-! ## Files -/

theorem length_sampleId : (List.replicate 20 (7 : UInt8)).length = 20 :=
  rfl

def sampleSource : ManifestSource where
  totalSize := 3
  filename := "a"
  sessionId := List.replicate 20 7
  createdAt := 0
  totalSize_lt := by norm_num
  sessionId_length := length_sampleId

/-- The file `a` of these numbers. -/
def numbersManifest (totalSize : UInt64) (chunkSize chunkCount : UInt32) :
    FileManifest where
  sessionId := List.replicate 20 7
  filename := "a"
  mimeType := "application/octet-stream"
  totalSize := totalSize.toNat
  chunkSize := chunkSize.toNat
  chunkCount := chunkCount.toNat
  transferMode := .bulk
  createdAt := 0
  sessionId_length := length_sampleId
  totalSize_lt := totalSize.toNat_lt
  chunkSize_lt := chunkSize.toNat_lt
  chunkCount_lt := chunkCount.toNat_lt

end P2pShare
