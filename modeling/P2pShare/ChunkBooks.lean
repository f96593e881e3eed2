import P2pShare.ChunkTiling

/-!
# The books of a receiver

Chunks done, chunks pending, and the bytes confirmed: when the three agree, and
what recording one chunk does to their agreement.
-/

namespace P2pShare

open ByteStream

/-- Each chunk the manifest counts begins in the file. -/
structure FileManifest.CountedWithin (manifest : FileManifest) : Prop where
  chunkSize : 0 < manifest.chunkSize
  offset_lt : ∀ index < manifest.chunkCount,
    manifest.offset index < manifest.totalSize

theorem buildManifest_countedWithin (source : ManifestSource) :
    (buildManifest source).CountedWithin where
  chunkSize := chunkSizeFor_pos source.totalSize
  offset_lt := fun _ hindex => buildManifest_offset_lt hindex

/-- The books agree: `initial` are the chunks done before, `accepted` lists the
chunks written since, with their plaintexts. -/
structure BooksExact (read : ℕ → Bytes → Option Bytes)
    (manifest : FileManifest) (initial : Finset ℕ)
    (accepted : List (ℕ × Bytes)) (done pending : Finset ℕ)
    (confirmed : ℕ) : Prop where
  inside : done ⊆ Finset.range manifest.chunkCount
  authentic : ∀ index ∈ done, index ∈ initial ∨
    ∃ plaintext, (index, plaintext) ∈ accepted ∧ plaintext ≠ [] ∧
      Decrypts read index plaintext
  disjoint : Disjoint done pending
  union : done ∪ pending = Finset.range manifest.chunkCount
  sum : confirmed = ∑ index ∈ done, manifest.sizeOf index
  bounded : confirmed ≤ manifest.totalSize

section Books

variable {read : ℕ → Bytes → Option Bytes} {manifest : FileManifest}
  {initial done pending : Finset ℕ} {accepted : List (ℕ × Bytes)}
  {confirmed : ℕ}

theorem FileManifest.CountedWithin.sizeOf_pos
    (hwithin : manifest.CountedWithin) {index : ℕ}
    (hindex : index < manifest.chunkCount) : 0 < manifest.sizeOf index := by
  have hoffset := hwithin.offset_lt index hindex
  rw [FileManifest.sizeOf_of_offset_le hoffset.le]
  exact lt_min (Nat.sub_pos_of_lt hoffset) hwithin.chunkSize

theorem FileManifest.CountedWithin.sum_sizeOf_le
    (hwithin : manifest.CountedWithin)
    (hinside : done ⊆ Finset.range manifest.chunkCount) :
    ∑ index ∈ done, manifest.sizeOf index ≤ manifest.totalSize := by
  apply FileManifest.sum_sizeOf_le
  intro index hindex
  exact (hwithin.offset_lt index (Finset.mem_range.mp (hinside hindex))).le

/-- The books a receiver starts from. -/
theorem booksExact_start (hwithin : manifest.CountedWithin)
    (hinside : initial ⊆ Finset.range manifest.chunkCount)
    (hpending : pending = Finset.range manifest.chunkCount \ initial)
    (hconfirmed : confirmed = ∑ index ∈ initial, manifest.sizeOf index) :
    BooksExact read manifest initial [] initial pending confirmed where
  inside := hinside
  authentic := fun _ hindex => Or.inl hindex
  disjoint := by
    rw [hpending]
    exact Finset.disjoint_sdiff
  union := by
    rw [hpending]
    exact Finset.union_sdiff_of_subset hinside
  sum := hconfirmed
  bounded := by
    rw [hconfirmed]
    exact hwithin.sum_sizeOf_le hinside

/-- Recording a chunk keeps the books exactly when the chunk was pending. -/
theorem booksExact_record_iff (hwithin : manifest.CountedWithin)
    (hexact : BooksExact read manifest initial accepted done pending confirmed)
    {index : ℕ} {plaintext : Bytes}
    (hlength : plaintext.length = manifest.sizeOf index)
    (hdecrypts : Decrypts read index plaintext) :
    BooksExact read manifest initial (accepted ++ [(index, plaintext)])
        (insert index done) (pending.erase index)
        (confirmed + plaintext.length) ↔
      index ∈ pending := by
  constructor
  · intro hafter
    have hbelow : index < manifest.chunkCount :=
      Finset.mem_range.mp (hafter.inside (Finset.mem_insert_self index done))
    by_contra hpending
    have hdone : index ∈ done := by
      have hmem := Finset.mem_range.mpr hbelow
      rw [← hexact.union] at hmem
      exact (Finset.mem_union.mp hmem).resolve_right hpending
    -- the sum does not change, and the count of bytes does
    have hsum := hafter.sum
    rw [Finset.insert_eq_of_mem hdone, ← hexact.sum] at hsum
    have hpos := hwithin.sizeOf_pos hbelow
    omega
  · intro hpending
    have hrange : index ∈ Finset.range manifest.chunkCount := by
      rw [← hexact.union]
      exact Finset.mem_union_right _ hpending
    have hnew : index ∉ done := fun hdone =>
      Finset.disjoint_left.mp hexact.disjoint hdone hpending
    have hinside : insert index done ⊆ Finset.range manifest.chunkCount :=
      Finset.insert_subset hrange hexact.inside
    have hsum : confirmed + plaintext.length =
        ∑ index ∈ insert index done, manifest.sizeOf index := by
      rw [Finset.sum_insert hnew, hexact.sum, hlength]
      exact Nat.add_comm _ _
    constructor
    · exact hinside
    · intro other hother
      obtain rfl | hold := Finset.mem_insert.mp hother
      · have hpos := hwithin.sizeOf_pos (Finset.mem_range.mp hrange)
        have hne : plaintext ≠ [] := by
          rintro rfl
          rw [← hlength] at hpos
          exact absurd hpos (Nat.lt_irrefl _)
        exact Or.inr ⟨plaintext, by simp, hne, hdecrypts⟩
      · obtain hinitial | ⟨bytes, hbytes, hne, hauthentic⟩ :=
          hexact.authentic other hold
        · exact Or.inl hinitial
        · exact Or.inr ⟨bytes, List.mem_append_left _ hbytes, hne, hauthentic⟩
    · rw [Finset.disjoint_insert_left]
      refine ⟨Finset.notMem_erase index pending, ?_⟩
      exact hexact.disjoint.mono_right (Finset.erase_subset _ _)
    · rw [Finset.insert_union, ← Finset.union_insert,
        Finset.insert_erase hpending]
      exact hexact.union
    · exact hsum
    · rw [hsum]
      exact hwithin.sum_sizeOf_le hinside

end Books

end P2pShare
