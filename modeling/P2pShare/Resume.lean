import P2pShare.Session
import P2pShare.PathResolution
import Mathlib.Data.Finset.Sort

/-!
# Saved transfer states

`transfer/resume.rs`.  The state files of the configuration directory are a
function of the session id in their name.
-/

namespace P2pShare

open ByteStream PathResolution

structure TransferState where
  sessionId : Bytes
  manifest : FileManifest
  chunksDone : Finset ℕ
  outputPath : RawPath
  deriving DecidableEq

inductive StateFile where
  | absent
  | unreadable
  | saved (state : TransferState)
  deriving DecidableEq

abbrev StateFiles := Bytes → StateFile

namespace TransferState

def new (manifest : FileManifest) (outputPath : RawPath) : TransferState where
  sessionId := manifest.sessionId
  manifest := manifest
  chunksDone := ∅
  outputPath := outputPath

def missingChunks (state : TransferState) : List ℕ :=
  (List.range state.manifest.chunkCount).filter fun index =>
    decide (index ∉ state.chunksDone)

/-- `existing.chunks_done.iter().copied().collect()`, in the order of the
`BTreeSet`. -/
def haveChunks (state : TransferState) : List ℕ :=
  state.chunksDone.sort (· ≤ ·)

def save (state : TransferState) (files : StateFiles) : StateFiles :=
  Function.update files state.sessionId (.saved state)

def load (files : StateFiles) (sessionId : Bytes) :
    Except Error (Option TransferState) :=
  match files sessionId with
  | .absent => .ok none
  | .unreadable => .error .json
  | .saved state => .ok (some state)

def delete (state : TransferState) (files : StateFiles) : StateFiles :=
  Function.update files state.sessionId .absent

@[simp] theorem mem_missingChunks {state : TransferState} {index : ℕ} :
    index ∈ state.missingChunks ↔
      index < state.manifest.chunkCount ∧ index ∉ state.chunksDone := by
  simp [missingChunks]

@[simp] theorem mem_haveChunks {state : TransferState} {index : ℕ} :
    index ∈ state.haveChunks ↔ index ∈ state.chunksDone :=
  Finset.mem_sort _

end TransferState

def outputPathFor (outputDir : RawPath) (manifest : FileManifest) : RawPath :=
  join outputDir manifest.filename.toList

def findResumable (pathExists : RawPath → Bool) (files : StateFiles)
    (manifest : FileManifest) (outputDir : RawPath) : Option TransferState :=
  if pathExists (outputPathFor outputDir manifest) then
    match TransferState.load files manifest.sessionId with
    | .ok found => found
    | .error _ => none
  else none

end P2pShare
