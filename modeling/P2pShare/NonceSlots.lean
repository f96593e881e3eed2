import P2pShare.Session
import P2pShare.Instances

/-!
# The nonce slots of a chunk

`chunk_nonce` in the machine integers of the source, for the chunks of any
length that fits the `u32` chunk size of a manifest.  A chunk has 65536 slots
of 65519 bytes, and its header counts them in a `u16`, so what the layout allows
is one slot less than what it leaves room for.
-/

namespace P2pShare

open ByteStream

/-! ## `chunk_nonce` on its own types -/

def chunkNonceU64 (chunkIndex subIndex : UInt32) : UInt64 :=
  ((1 : UInt64) <<< 32) + (chunkIndex.toUInt64 <<< 16) + subIndex.toUInt64

theorem toNat_chunkNonceU64 (chunkIndex subIndex : UInt32) :
    (chunkNonceU64 chunkIndex subIndex).toNat =
      chunkNonce chunkIndex.toNat subIndex.toNat := by
  have hindex : chunkIndex.toNat < 4294967296 := chunkIndex.toNat_lt
  have hsub : subIndex.toNat < 4294967296 := subIndex.toNat_lt
  have hbase : ((1 : UInt64) <<< 32).toNat = 4294967296 := rfl
  have hshift : (chunkIndex.toUInt64 <<< (16 : UInt64)).toNat =
      chunkIndex.toNat * 65536 := by
    rw [UInt64.toNat_shiftLeft, UInt32.toNat_toUInt64]
    have hamount : (16 : UInt64).toNat % 64 = 16 := rfl
    rw [hamount, Nat.shiftLeft_eq]
    omega
  unfold chunkNonceU64 chunkNonce chunkNonceBase
  rw [UInt64.toNat_add, UInt64.toNat_add, hbase, hshift,
    UInt32.toNat_toUInt64]
  omega

/-- A call of `encrypt_chunk`. -/
structure ChunkCall where
  chunkIndex : UInt32
  plaintext : Bytes
  length_lt : plaintext.length < 4294967296

namespace ChunkCall

/-- `plaintext.chunks(MAX_PLAIN).count()`. -/
def subCount (call : ChunkCall) : ℕ :=
  (pieces maxPlain call.plaintext).length

/-- The nonce of one sub-message, whose index is cast to `u32`. -/
def nonce (call : ChunkCall) (subIndex : ℕ) : UInt64 :=
  chunkNonceU64 call.chunkIndex (UInt32.ofNat subIndex)

variable (noise : Noise)

/-- What one call promises: its nonces are those of the layout, lie above the
counter of the control messages and below the reserved nonce, and the header
counts the sub-messages. -/
structure Faithful (call : ChunkCall) : Prop where
  used : ∀ subIndex entry,
    (sealedChunk noise call.chunkIndex.toNat call.plaintext)[subIndex]? =
        some entry →
      (call.nonce subIndex).toNat = entry.nonce
  above : ∀ subIndex < call.subCount, 4294967296 ≤ (call.nonce subIndex).toNat
  below : ∀ subIndex < call.subCount,
    (call.nonce subIndex).toNat < 18446744073709551615
  counted : ∀ bytes,
    encryptChunk noise call.chunkIndex.toNat call.plaintext = some bytes →
      (readBe 2 bytes).map Prod.fst = some call.subCount

/-- Different slots of two calls have different nonces. -/
def Apart (call other : ChunkCall) : Prop :=
  ∀ subIndex < call.subCount, ∀ subIndex' < other.subCount,
    (call.chunkIndex, subIndex) ≠ (other.chunkIndex, subIndex') →
      call.nonce subIndex ≠ other.nonce subIndex'

end ChunkCall

/-! ## How many sub-messages there are -/

namespace ChunkCall

variable {call other : ChunkCall}

theorem subCount_le_iff (call : ChunkCall) (slots : ℕ) :
    call.subCount ≤ slots ↔ call.plaintext.length ≤ slots * maxPlain := by
  have hpos : 0 < maxPlain := by decide
  unfold subCount
  rw [length_pieces, ceilDiv_le_iff_le_smul hpos, smul_eq_mul, Nat.mul_comm]

theorem subCount_lt (call : ChunkCall) : call.subCount < 4294967296 := by
  have hlength := call.length_lt
  have hle : call.subCount ≤ 65555 := by
    rw [subCount_le_iff]
    unfold maxPlain
    omega
  omega

/-- The cast to `u32` loses nothing. -/
theorem toNat_nonce {subIndex : ℕ} (hsub : subIndex < call.subCount) :
    (call.nonce subIndex).toNat =
      chunkNonce call.chunkIndex.toNat subIndex := by
  have hlt := hsub.trans call.subCount_lt
  have hcast : (UInt32.ofNat subIndex).toNat = subIndex := by
    rw [UInt32.toNat_ofNat']
    exact Nat.mod_eq_of_lt hlt
  unfold nonce
  rw [toNat_chunkNonceU64, hcast]

theorem nonce_range {subIndex : ℕ} (hsub : subIndex < call.subCount) :
    4294967296 ≤ (call.nonce subIndex).toNat ∧
      (call.nonce subIndex).toNat < 18446744073709551615 := by
  have hlt := hsub.trans call.subCount_lt
  have hindex : call.chunkIndex.toNat < 4294967296 := call.chunkIndex.toNat_lt
  rw [toNat_nonce hsub]
  unfold chunkNonce chunkNonceBase
  omega

theorem nonce_of_sealedChunk {noise : Noise} {subIndex : ℕ} {entry : Sealed}
    (hentry : (sealedChunk noise call.chunkIndex.toNat
      call.plaintext)[subIndex]? = some entry) :
    (call.nonce subIndex).toNat = entry.nonce := by
  unfold sealedChunk at hentry
  rw [List.getElem?_mapIdx, Option.map_eq_some_iff] at hentry
  obtain ⟨piece, hpiece, rfl⟩ := hentry
  obtain ⟨hsub, _⟩ := List.getElem?_eq_some_iff.mp hpiece
  rw [toNat_nonce hsub]
  rfl

/-- The header of a chunk counts its sub-messages modulo `2 ^ 16`. -/
theorem header_of_encryptChunk {noise : Noise} {bytes : Bytes}
    (hencrypt : encryptChunk noise call.chunkIndex.toNat call.plaintext =
      some bytes) :
    (readBe 2 bytes).map Prod.fst = some (call.subCount % 65536) := by
  have hcount : (subCiphertexts noise call.chunkIndex.toNat
      call.plaintext).length = call.subCount := by
    simp [subCiphertexts, sealedChunk, subCount]
  rw [encryptChunk_eq, Option.some.injEq] at hencrypt
  subst hencrypt
  have hlt : call.subCount % 2 ^ 16 < 256 ^ 2 := Nat.mod_lt _ (by norm_num)
  unfold payload
  rw [hcount, readBe_append hlt]
  rfl

theorem counted_iff (noise : Noise) (call : ChunkCall) :
    (∀ bytes,
      encryptChunk noise call.chunkIndex.toNat call.plaintext = some bytes →
        (readBe 2 bytes).map Prod.fst = some call.subCount) ↔
      call.plaintext.length ≤ 65535 * maxPlain := by
  rw [← subCount_le_iff]
  constructor
  · intro hcounted
    have hheader := hcounted _ (encryptChunk_eq noise _ _)
    rw [header_of_encryptChunk (encryptChunk_eq noise _ _),
      Option.some.injEq] at hheader
    omega
  · intro hle bytes hencrypt
    rw [header_of_encryptChunk hencrypt, Nat.mod_eq_of_lt (by omega)]

/-- Within 65536 slots the nonces are apart. -/
theorem apart_of_subCount_le (hcall : call.subCount ≤ 65536)
    (hother : other.subCount ≤ 65536) : call.Apart other := by
  intro subIndex hsub subIndex' hsub' hne heq
  have hnonce := congrArg UInt64.toNat heq
  rw [toNat_nonce hsub, toNat_nonce hsub'] at hnonce
  have hslot : subIndex < 2 ^ 16 := by omega
  have hslot' : subIndex' < 2 ^ 16 := by omega
  obtain ⟨hindex, rfl⟩ := chunkNonce_inj hslot hslot' hnonce
  apply hne
  rw [UInt32.toNat_inj.mp hindex]

/-- Slot 65536 of a chunk is slot 0 of the next one. -/
theorem not_apart_of_overflow (hcall : 65536 < call.subCount)
    (hother : 0 < other.subCount)
    (hnext : other.chunkIndex.toNat = call.chunkIndex.toNat + 1) :
    ¬ call.Apart other := by
  intro hapart
  have hne : (call.chunkIndex, 65536) ≠ (other.chunkIndex, 0) := by
    intro heq
    cases congrArg Prod.snd heq
  apply hapart 65536 hcall 0 hother hne
  apply UInt64.toNat_inj.mp
  rw [toNat_nonce hcall, toNat_nonce hother, hnext]
  unfold chunkNonce
  omega

end ChunkCall

/-! ## When the layout keeps its promise -/

/-- Two calls have separate slots and true headers exactly if each chunk fits in
65535 sub-messages. -/
theorem nonce_slots_iff (noise : Noise) (call other : ChunkCall) :
    call.Apart other ∧ call.Faithful noise ∧ other.Faithful noise ↔
      call.plaintext.length ≤ 65535 * maxPlain ∧
        other.plaintext.length ≤ 65535 * maxPlain := by
  constructor
  · rintro ⟨_, hcall, hother⟩
    exact ⟨(ChunkCall.counted_iff noise call).mp hcall.counted,
      (ChunkCall.counted_iff noise other).mp hother.counted⟩
  · rintro ⟨hcall, hother⟩
    have hfaithful : ∀ c : ChunkCall,
        c.plaintext.length ≤ 65535 * maxPlain → c.Faithful noise := by
      intro c hlength
      constructor
      · exact fun _ _ hentry => ChunkCall.nonce_of_sealedChunk hentry
      · exact fun _ hsub => (ChunkCall.nonce_range hsub).1
      · exact fun _ hsub => (ChunkCall.nonce_range hsub).2
      · exact (ChunkCall.counted_iff noise c).mpr hlength
    have hcount : ∀ c : ChunkCall,
        c.plaintext.length ≤ 65535 * maxPlain → c.subCount ≤ 65536 := by
      intro c hlength
      have hle := (c.subCount_le_iff 65535).mpr hlength
      omega
    exact ⟨ChunkCall.apart_of_subCount_le (hcount call hcall)
      (hcount other hother), hfaithful call hcall, hfaithful other hother⟩

/-- A whole transfer with chunks of `size` bytes never repeats a nonce exactly
if a chunk has no more than 65536 sub-messages. -/
theorem nonces_apart_iff {size : ℕ} (hsize : size < 4294967296) :
    (∀ call other : ChunkCall, call.plaintext.length ≤ size →
      other.plaintext.length ≤ size → call.Apart other) ↔
      size ≤ 65536 * maxPlain := by
  constructor
  · intro hapart
    by_contra hlong
    have hlength : (List.replicate size (0 : UInt8)).length = size :=
      List.length_replicate
    let call : ChunkCall :=
      ⟨0, List.replicate size 0, hlength.symm ▸ hsize⟩
    let other : ChunkCall :=
      ⟨1, List.replicate size 0, hlength.symm ▸ hsize⟩
    have hcount : ∀ c : ChunkCall, c.plaintext = List.replicate size 0 →
        65536 < c.subCount := by
      intro c hplaintext
      by_contra hle
      rw [Nat.not_lt, ChunkCall.subCount_le_iff, hplaintext, hlength] at hle
      exact hlong hle
    have hcall := hcount call rfl
    have hother : 0 < other.subCount := Nat.zero_lt_of_lt (hcount other rfl)
    have hnext : other.chunkIndex.toNat = call.chunkIndex.toNat + 1 := rfl
    exact ChunkCall.not_apart_of_overflow hcall hother hnext
      (hapart call other (Nat.le_of_eq hlength) (Nat.le_of_eq hlength))
  · intro hle call other hcall hother
    apply ChunkCall.apart_of_subCount_le
    · exact (call.subCount_le_iff 65536).mpr (Nat.le_trans hcall hle)
    · exact (other.subCount_le_iff 65536).mpr (Nat.le_trans hother hle)

/-! ## A chunk of 4 GB -/

def zeros (length : ℕ) : Bytes := List.replicate length 0

theorem length_zeros (length : ℕ) : (zeros length).length = length :=
  List.length_replicate

/-- The largest chunk size a manifest can name. -/
def wideChunk : ChunkCall where
  chunkIndex := 0
  plaintext := zeros 4294967295
  length_lt := by
    rw [length_zeros]
    omega

def nextChunk : ChunkCall where
  chunkIndex := 1
  plaintext := zeros 1
  length_lt := by
    rw [length_zeros]
    omega

theorem wide_chunk_overlaps_next :
    ¬ (wideChunk.Apart nextChunk ∧ wideChunk.Faithful lookupNoise ∧
      nextChunk.Faithful lookupNoise) := by
  have hwide : 65536 < wideChunk.subCount := by
    by_contra hle
    rw [Nat.not_lt, ChunkCall.subCount_le_iff] at hle
    have hlength : wideChunk.plaintext.length = 4294967295 :=
      length_zeros 4294967295
    rw [hlength] at hle
    unfold maxPlain at hle
    omega
  have hnext : 0 < nextChunk.subCount := by
    by_contra hle
    rw [Nat.not_lt, ChunkCall.subCount_le_iff] at hle
    have hlength : nextChunk.plaintext.length = 1 := length_zeros 1
    rw [hlength] at hle
    omega
  intro hall
  exact ChunkCall.not_apart_of_overflow hwide hnext rfl hall.1

end P2pShare
