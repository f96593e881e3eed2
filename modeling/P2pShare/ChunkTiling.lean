import P2pShare.FullReceipt
import P2pShare.Sender
import Mathlib.Algebra.Order.BigOperators.Group.Finset
import Mathlib.Data.Finset.Max
import Mathlib.Data.Nat.SuccPred
import Mathlib.Order.CompletePartialOrder
import Mathlib.Order.SuccPred.IntervalSucc

/-!
# The chunks of a manifest and the file it was built from

`build_manifest` divides the length of the file by the chunk size, rounds up,
and keeps 32 bits of the count.  While the count fits in them the chunks tile
the file.
-/

namespace P2pShare

open ByteStream

namespace FileManifest

variable {manifest : FileManifest}

/-- The range of the file that `read_chunk` reads for this index. -/
def chunkRange (manifest : FileManifest) (index : ℕ) : Set ℕ :=
  Set.Ico (manifest.offset index) (manifest.offset index + manifest.sizeOf index)

/-- `read_chunk` for each index in turn. -/
def readChunks (manifest : FileManifest) (file : Bytes) (count : ℕ) :
    Option (List Bytes) :=
  (List.range count).mapM (readChunk file manifest)

structure ChunksTile (manifest : FileManifest) : Prop where
  nonempty : ∀ index < manifest.chunkCount, (manifest.chunkRange index).Nonempty
  consecutive : ∀ index, index + 1 < manifest.chunkCount →
    manifest.offset (index + 1) = manifest.offset index + manifest.sizeOf index
  disjoint : ∀ low < manifest.chunkCount, ∀ high < manifest.chunkCount,
    low ≠ high → Disjoint (manifest.chunkRange low) (manifest.chunkRange high)
  union : ⋃ index ∈ Set.Iio manifest.chunkCount, manifest.chunkRange index =
    Set.Ico 0 manifest.totalSize
  read : ∀ file : Bytes, file.length = manifest.totalSize →
    (manifest.readChunks file manifest.chunkCount).map List.flatten = some file

/-- Where the chunks before this index end in the file. -/
def edge (manifest : FileManifest) (index : ℕ) : ℕ :=
  min manifest.totalSize (manifest.offset index)

theorem edge_mono : Monotone manifest.edge := fun _ _ hle =>
  min_le_min le_rfl (offset_le_offset hle)

/-- A chunk that begins in the file lies between two edges. -/
theorem chunkRange_eq {index : ℕ}
    (hoffset : manifest.offset index ≤ manifest.totalSize) :
    manifest.chunkRange index =
      Set.Ico (manifest.edge index) (manifest.edge (index + 1)) := by
  unfold chunkRange
  rw [offset_add_sizeOf_of_le hoffset]
  have hedge : manifest.edge index = manifest.offset index := min_eq_right hoffset
  rw [hedge]
  rfl

/-- Reading one more chunk extends what was read up to the next edge. -/
theorem readChunks_flatten {file : Bytes}
    (hfile : file.length = manifest.totalSize) (count : ℕ)
    (hcount : ∀ index < count, manifest.offset index ≤ manifest.totalSize) :
    (manifest.readChunks file count).map List.flatten =
      some (file.take (manifest.edge count)) := by
  induction count with
  | zero => simp [readChunks, edge, offset]
  | succ count ih =>
      have hoffset := hcount count (Nat.lt_succ_self count)
      have hbefore := ih fun index hindex =>
        hcount index (hindex.trans (Nat.lt_succ_self count))
      have hend := offset_add_sizeOf_of_le hoffset
      have hinside :
          manifest.offset count + manifest.sizeOf count ≤ file.length := by
        rw [hend, hfile]
        exact min_le_left _ _
      have hchunk := readChunk_of_le hinside
      obtain ⟨chunks, hchunks, hflatten⟩ := Option.map_eq_some_iff.mp hbefore
      have hmore : manifest.readChunks file (count + 1) =
          some (chunks ++ [(file.drop (manifest.offset count)).take
            (manifest.sizeOf count)]) := by
        unfold readChunks at hchunks ⊢
        rw [List.range_succ, List.mapM_append, hchunks]
        simp [hchunk]
      have hedge : manifest.edge count = manifest.offset count :=
        min_eq_right hoffset
      have hnext : manifest.edge (count + 1) =
          manifest.offset count + manifest.sizeOf count := hend.symm
      rw [hmore, Option.map_some, List.flatten_append, hflatten, hedge, hnext,
        List.take_add]
      simp

/-- Sizes of chunks add up to where they end. -/
theorem sum_sizeOf_range (count : ℕ)
    (hcount : ∀ index < count, manifest.offset index ≤ manifest.totalSize) :
    ∑ index ∈ Finset.range count, manifest.sizeOf index =
      manifest.edge count := by
  induction count with
  | zero => simp [edge, offset]
  | succ count ih =>
      have hoffset := hcount count (Nat.lt_succ_self count)
      have hbefore := ih fun index hindex =>
        hcount index (hindex.trans (Nat.lt_succ_self count))
      have hedge : manifest.edge count = manifest.offset count :=
        min_eq_right hoffset
      rw [Finset.sum_range_succ, hbefore, hedge]
      exact offset_add_sizeOf_of_le hoffset

/-- Different chunks that begin in the file are no longer than it together. -/
theorem sum_sizeOf_le {indices : Finset ℕ}
    (hindices : ∀ index ∈ indices,
      manifest.offset index ≤ manifest.totalSize) :
    ∑ index ∈ indices, manifest.sizeOf index ≤ manifest.totalSize := by
  by_cases hempty : indices = ∅
  · rw [hempty, Finset.sum_empty]
    exact Nat.zero_le _
  · have hnonempty := Finset.nonempty_iff_ne_empty.mpr hempty
    have hlast := hindices _ (indices.max'_mem hnonempty)
    have hsubset : indices ⊆ Finset.range (indices.max' hnonempty + 1) := by
      intro index hindex
      exact Finset.mem_range_succ_iff.mpr (indices.le_max' index hindex)
    calc
      ∑ index ∈ indices, manifest.sizeOf index ≤
          ∑ index ∈ Finset.range (indices.max' hnonempty + 1),
            manifest.sizeOf index := Finset.sum_le_sum_of_subset hsubset
      _ = manifest.edge (indices.max' hnonempty + 1) :=
          sum_sizeOf_range _ fun index hindex =>
            (offset_le_offset (Nat.lt_succ_iff.mp hindex)).trans hlast
      _ ≤ manifest.totalSize := min_le_left _ _

/-- A position before the end of the last chunk lies in one of them. -/
theorem exists_chunkRange {position : ℕ}
    (hinside : ∀ index < manifest.chunkCount,
      manifest.offset index ≤ manifest.totalSize)
    (hposition : position < manifest.edge manifest.chunkCount) :
    ∃ index < manifest.chunkCount, position ∈ manifest.chunkRange index := by
  obtain ⟨hfile, hcount⟩ := lt_min_iff.mp hposition
  obtain ⟨index, hindex, hlow, hhigh⟩ := exists_block hcount
  refine ⟨index, hindex, ?_⟩
  unfold chunkRange
  rw [offset_add_sizeOf_of_le (hinside index hindex)]
  exact ⟨hlow, lt_min hfile hhigh⟩

/-- Chunks that begin in the file and reach its end tile it. -/
theorem chunksTile_of_totalSize_le
    (hinside : ∀ index < manifest.chunkCount,
      manifest.offset index < manifest.totalSize)
    (hsize : 0 < manifest.chunkSize)
    (hreaches : manifest.totalSize ≤ manifest.offset manifest.chunkCount) :
    manifest.ChunksTile := by
  have hedge : manifest.edge manifest.chunkCount = manifest.totalSize :=
    min_eq_left hreaches
  constructor
  · intro index hindex
    have hoffset := hinside index hindex
    refine ⟨manifest.offset index, le_rfl, ?_⟩
    rw [offset_add_sizeOf_of_le hoffset.le, offset_succ]
    omega
  · intro index hindex
    have hnext := hinside (index + 1) hindex
    have hoffset := hinside index (by omega)
    rw [offset_add_sizeOf_of_le hoffset.le]
    exact (min_eq_right hnext.le).symm
  · intro low hlow high hhigh hne
    rw [chunkRange_eq (hinside low hlow).le, chunkRange_eq (hinside high hhigh).le]
    exact edge_mono.pairwise_disjoint_on_Ico_succ hne
  · ext position
    simp only [Set.mem_iUnion, Set.mem_Iio, exists_prop, Set.mem_Ico,
      Nat.zero_le, true_and]
    constructor
    · rintro ⟨index, hindex, hrange⟩
      rw [chunkRange_eq (hinside index hindex).le] at hrange
      exact hrange.2.trans_le (min_le_left _ _)
    · intro hposition
      rw [← hedge] at hposition
      exact exists_chunkRange (fun index hindex => (hinside index hindex).le)
        hposition
  · intro file hfile
    rw [readChunks_flatten hfile _ fun index hindex => (hinside index hindex).le,
      hedge, ← hfile, List.take_length]

end FileManifest

/-- The count fits in 32 bits exactly up to this length. -/
theorem ceilDiv_chunkSizeFor_lt_iff (totalSize : ℕ) :
    totalSize ⌈/⌉ chunkSizeFor totalSize < 2 ^ 32 ↔
      totalSize ≤ (2 ^ 32 - 1) * 8388608 := by
  have hpos := chunkSizeFor_pos totalSize
  rw [Nat.lt_iff_le_pred (by norm_num),
    ceilDiv_le_iff_le_smul hpos, smul_eq_mul, Nat.mul_comm]
  unfold chunkSizeFor
  split <;> omega

/-- The chunks counted reach the end of the file exactly while their number
fits in 32 bits. -/
theorem buildManifest_totalSize_le_iff {source : ManifestSource} :
    source.totalSize ≤
        (buildManifest source).offset (buildManifest source).chunkCount ↔
      source.totalSize ⌈/⌉ chunkSizeFor source.totalSize < 2 ^ 32 := by
  refine ⟨?_, buildManifest_totalSize_le⟩
  intro hreaches
  by_contra hcount
  have hcount : (buildManifest source).chunkCount <
      source.totalSize ⌈/⌉ chunkSizeFor source.totalSize :=
    (buildManifest source).chunkCount_lt.trans_le (Nat.le_of_not_lt hcount)
  have hnot : ¬ source.totalSize ≤ chunkSizeFor source.totalSize *
      (buildManifest source).chunkCount := by
    rw [← smul_eq_mul, ← ceilDiv_le_iff_le_smul
      (chunkSizeFor_pos source.totalSize)]
    exact Nat.not_le.mpr hcount
  rw [Nat.mul_comm] at hnot
  exact hnot hreaches

/-- The chunks tile the file exactly while their number fits in 32 bits. -/
theorem chunksTile_iff (source : ManifestSource) :
    (buildManifest source).ChunksTile ↔
      source.totalSize ≤ (2 ^ 32 - 1) * 8388608 := by
  rw [← ceilDiv_chunkSizeFor_lt_iff]
  constructor
  · intro htile
    by_contra hcount
    -- the first byte that the chunks counted leave out
    have hleft : (buildManifest source).offset (buildManifest source).chunkCount <
        (buildManifest source).totalSize :=
      Nat.not_le.mp (mt buildManifest_totalSize_le_iff.mp hcount)
    have hmem : (buildManifest source).offset (buildManifest source).chunkCount ∈
        Set.Ico 0 (buildManifest source).totalSize := ⟨Nat.zero_le _, hleft⟩
    rw [← htile.union] at hmem
    simp only [Set.mem_iUnion, Set.mem_Iio, exists_prop] at hmem
    obtain ⟨index, hindex, hrange⟩ := hmem
    have hoffset : (buildManifest source).offset index <
        (buildManifest source).totalSize := buildManifest_offset_lt hindex
    rw [FileManifest.chunkRange_eq hoffset.le] at hrange
    have hends := hrange.2.trans_le (min_le_right _ _)
    have hle : (buildManifest source).offset (index + 1) ≤
        (buildManifest source).offset (buildManifest source).chunkCount :=
      FileManifest.offset_le_offset hindex
    omega
  · intro hcount
    exact FileManifest.chunksTile_of_totalSize_le
      (fun _ hindex => buildManifest_offset_lt hindex)
      (chunkSizeFor_pos source.totalSize) (buildManifest_totalSize_le hcount)

/-- A file of `2^32` chunks of eight mebibytes. -/
def widestSource : ManifestSource where
  totalSize := 2 ^ 55
  filename := "a"
  sessionId := List.replicate 20 7
  createdAt := 0
  totalSize_lt := by norm_num
  sessionId_length := length_sampleId

/-- The manifest of a file that is not empty counts no chunk. -/
theorem not_chunksTile_widest : ¬ (buildManifest widestSource).ChunksTile := by
  intro htile
  have hcount : (buildManifest widestSource).chunkCount = 0 := by decide +kernel
  have hunion := htile.union
  rw [hcount] at hunion
  have hmem : 0 ∈ Set.Ico 0 (buildManifest widestSource).totalSize :=
    ⟨le_rfl, by decide +kernel⟩
  rw [← hunion] at hmem
  simp at hmem

end P2pShare
