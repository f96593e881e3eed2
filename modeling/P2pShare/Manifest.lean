import P2pShare.ByteStream
import Mathlib.Tactic.NormNum

/-!
# Manifests and control messages

The data of `transfer/manifest.rs`, with the chunk arithmetic both sides of a
transfer compute from it.  `u32` and `u64` fields are naturals that carry
their bound; subtraction and casts wrap as a release build does.
-/

namespace P2pShare

open ByteStream

structure StreamingConfig where
  bufferChunks : ℕ
  localPort : ℕ
  deriving DecidableEq, Repr

inductive TransferMode where
  | bulk
  | streaming (config : StreamingConfig)
  deriving DecidableEq, Repr

structure FileManifest where
  sessionId : Bytes
  filename : String
  mimeType : String
  totalSize : ℕ
  chunkSize : ℕ
  chunkCount : ℕ
  transferMode : TransferMode
  createdAt : ℕ
  sessionId_length : sessionId.length = 20
  totalSize_lt : totalSize < 2 ^ 64
  chunkSize_lt : chunkSize < 2 ^ 32
  chunkCount_lt : chunkCount < 2 ^ 32
  deriving DecidableEq

inductive ControlMessage where
  | manifest (manifest : FileManifest)
  | manifestAck
  | resumeRequest (haveChunks : List ℕ)
  | chunkNack (index : ℕ)
  | progress (bytes : ℕ)
  | complete
  | error (code : ℕ) (message : String)
  deriving DecidableEq

/-! ## Helpers -/

def chunkSizeFor (fileSize : ℕ) : ℕ :=
  if fileSize ≤ 5000000 then 524288 else 8388608

/-- `(total_size - start).min(chunk_size) as u32`, with the wrapping
subtraction of a release build. -/
def actualChunkSize (chunkIndex chunkSize totalSize : ℕ) : ℕ :=
  min ((totalSize + 2 ^ 64 - chunkIndex * chunkSize) % 2 ^ 64) chunkSize

/-- The characters whose lower case is an ASCII letter: the ASCII capitals and
the Kelvin sign. -/
def lowerChar (char : Char) : Char :=
  if char = '\u212A' then 'k' else char.toLower

def guessMime (name : String) : String :=
  let extension :=
    String.ofList (((name.toList.reverse.takeWhile (· ≠ '.')).reverse).map
      lowerChar)
  if extension = "mp4" ∨ extension = "mov" ∨ extension = "m4v" then
    "video/mp4"
  else if extension = "mkv" then "video/x-matroska"
  else if extension = "jpg" ∨ extension = "jpeg" then "image/jpeg"
  else if extension = "png" then "image/png"
  else if extension = "gif" then "image/gif"
  else if extension = "pdf" then "application/pdf"
  else if extension = "txt" then "text/plain"
  else if extension = "zip" then "application/zip"
  else if extension = "tar" then "application/x-tar"
  else "application/octet-stream"

/-- What `build_manifest` reads: the length of the file, its name, the random
session id and the clock. -/
structure ManifestSource where
  totalSize : ℕ
  filename : String
  sessionId : Bytes
  createdAt : ℕ
  totalSize_lt : totalSize < 2 ^ 64
  sessionId_length : sessionId.length = 20

theorem chunkSizeFor_lt (fileSize : ℕ) : chunkSizeFor fileSize < 2 ^ 32 := by
  unfold chunkSizeFor
  split <;> norm_num

theorem chunkSizeFor_pos (fileSize : ℕ) : 0 < chunkSizeFor fileSize := by
  unfold chunkSizeFor
  split <;> norm_num

theorem chunkSizeFor_le (fileSize : ℕ) : chunkSizeFor fileSize ≤ 8388608 := by
  unfold chunkSizeFor
  split <;> norm_num

def buildManifest (source : ManifestSource) : FileManifest where
  sessionId := source.sessionId
  filename := source.filename
  mimeType := guessMime source.filename
  totalSize := source.totalSize
  chunkSize := chunkSizeFor source.totalSize
  chunkCount :=
    (source.totalSize ⌈/⌉ chunkSizeFor source.totalSize) % 2 ^ 32
  transferMode := .bulk
  createdAt := source.createdAt
  sessionId_length := source.sessionId_length
  totalSize_lt := source.totalSize_lt
  chunkSize_lt := chunkSizeFor_lt source.totalSize
  chunkCount_lt := Nat.mod_lt _ (by norm_num)

namespace FileManifest

variable (manifest : FileManifest)

/-- Where chunk `index` begins in the file: `chunk_index as u64 * chunk_size as u64`. -/
def offset (index : ℕ) : ℕ := index * manifest.chunkSize

def sizeOf (index : ℕ) : ℕ :=
  actualChunkSize index manifest.chunkSize manifest.totalSize

variable {manifest}

theorem sizeOf_le_chunkSize (index : ℕ) :
    manifest.sizeOf index ≤ manifest.chunkSize :=
  min_le_right _ _

theorem sizeOf_of_offset_le {index : ℕ}
    (hoffset : manifest.offset index ≤ manifest.totalSize) :
    manifest.sizeOf index =
      min (manifest.totalSize - manifest.offset index)
        manifest.chunkSize := by
  have htotal := manifest.totalSize_lt
  unfold sizeOf actualChunkSize
  rw [show index * manifest.chunkSize = manifest.offset index from rfl,
    show manifest.totalSize + 2 ^ 64 - manifest.offset index =
      (manifest.totalSize - manifest.offset index) + 2 ^ 64 by omega,
    Nat.add_mod_right, Nat.mod_eq_of_lt (by omega)]

/-- Past the end of the file the subtraction wraps, and the size computed is a
full chunk. -/
theorem sizeOf_of_totalSize_lt {index : ℕ} (hindex : index < 2 ^ 32)
    (hoffset : manifest.totalSize < manifest.offset index) :
    manifest.sizeOf index = manifest.chunkSize := by
  have hsize := manifest.chunkSize_lt
  have hbound : manifest.offset index ≤ (2 ^ 32 - 1) * (2 ^ 32 - 1) :=
    Nat.mul_le_mul (by omega) (by omega)
  have hwrap :
      (manifest.totalSize + 2 ^ 64 - manifest.offset index) % 2 ^ 64 =
        manifest.totalSize + 2 ^ 64 - manifest.offset index :=
    Nat.mod_eq_of_lt (by omega)
  unfold sizeOf actualChunkSize
  rw [show index * manifest.chunkSize = manifest.offset index from rfl,
    hwrap]
  exact min_eq_right (by omega)

theorem offset_succ (index : ℕ) :
    manifest.offset (index + 1) =
      manifest.offset index + manifest.chunkSize :=
  Nat.succ_mul index manifest.chunkSize

end FileManifest

/-! ## Manifests that `build_manifest` produces -/

theorem buildManifest_chunkCount_le (source : ManifestSource) :
    (buildManifest source).chunkCount ≤
      source.totalSize ⌈/⌉ chunkSizeFor source.totalSize :=
  Nat.mod_le _ _

/-- Each index below the chunk count begins inside the file. -/
theorem buildManifest_offset_lt {source : ManifestSource} {index : ℕ}
    (hindex : index < (buildManifest source).chunkCount) :
    (buildManifest source).offset index < source.totalSize := by
  have hpos := chunkSizeFor_pos source.totalSize
  have hceil :
      index < source.totalSize ⌈/⌉ chunkSizeFor source.totalSize :=
    hindex.trans_le (buildManifest_chunkCount_le source)
  have hnot :
      ¬ source.totalSize ≤ chunkSizeFor source.totalSize * index := by
    rw [← smul_eq_mul, ← ceilDiv_le_iff_le_smul hpos]
    exact Nat.not_le.mpr hceil
  rw [Nat.not_le, Nat.mul_comm] at hnot
  exact hnot

theorem buildManifest_offset_add_sizeOf_le {source : ManifestSource}
    {index : ℕ} (hindex : index < (buildManifest source).chunkCount) :
    (buildManifest source).offset index + (buildManifest source).sizeOf index ≤
      source.totalSize := by
  have hoffset :
      (buildManifest source).offset index < (buildManifest source).totalSize :=
    buildManifest_offset_lt hindex
  have hsize := FileManifest.sizeOf_of_offset_le hoffset.le
  have htotal : (buildManifest source).totalSize = source.totalSize := rfl
  rw [hsize]
  omega

/-- A chunk count that fits in `u32` covers the file. -/
theorem buildManifest_totalSize_le {source : ManifestSource}
    (hcount :
      source.totalSize ⌈/⌉ chunkSizeFor source.totalSize < 2 ^ 32) :
    source.totalSize ≤
      (buildManifest source).offset (buildManifest source).chunkCount := by
  have hpos := chunkSizeFor_pos source.totalSize
  have hle :
      source.totalSize ≤ chunkSizeFor source.totalSize •
        (source.totalSize ⌈/⌉ chunkSizeFor source.totalSize) :=
    le_smul_ceilDiv hpos
  have hexact :
      (buildManifest source).chunkCount =
        source.totalSize ⌈/⌉ chunkSizeFor source.totalSize :=
    Nat.mod_eq_of_lt hcount
  rw [smul_eq_mul, Nat.mul_comm, ← hexact] at hle
  exact hle

end P2pShare
