import P2pShare.ByteStream

/-!
# Files with random access

A file is its list of bytes.  Writing at an offset replaces the bytes there,
extends the file when it reaches past the end, and fills a gap with zeros, as
a positioned POSIX write does.
-/

namespace RandomAccessFile

open ByteStream

/-- Truncate the file, or extend it with zeros. -/
def setLen (file : Bytes) (length : ℕ) : Bytes :=
  file.take length ++ List.replicate (length - file.length) 0

/-- One positioned write.  Writing nothing changes nothing. -/
def writeAt (file : Bytes) (offset : ℕ) (bytes : Bytes) : Bytes :=
  if bytes = [] then file
  else setLen file offset ++ bytes ++ file.drop (offset + bytes.length)

@[simp] theorem writeAt_nil (file : Bytes) (offset : ℕ) :
    writeAt file offset [] = file := by
  simp [writeAt]

@[simp] theorem length_setLen (file : Bytes) (length : ℕ) :
    (setLen file length).length = length := by
  simp only [setLen, List.length_append, List.length_take,
    List.length_replicate]
  omega

theorem length_writeAt (file : Bytes) (offset : ℕ) {bytes : Bytes}
    (hbytes : bytes ≠ []) :
    (writeAt file offset bytes).length =
      max file.length (offset + bytes.length) := by
  simp only [writeAt, if_neg hbytes, List.length_append, length_setLen,
    List.length_drop]
  omega

/-- A write at the end of the file. -/
theorem writeAt_length (file bytes : Bytes) :
    writeAt file file.length bytes = file ++ bytes := by
  by_cases hbytes : bytes = []
  · rw [hbytes, writeAt_nil, List.append_nil]
  · have hlen : setLen file file.length = file := by
      rw [setLen, List.take_length, Nat.sub_self, List.replicate_zero,
        List.append_nil]
    rw [writeAt, if_neg hbytes, hlen,
      List.drop_eq_nil_of_le (Nat.le_add_right _ _), List.append_nil]

/-- A write at the beginning of the file. -/
theorem writeAt_zero (file bytes : Bytes) :
    writeAt file 0 bytes = bytes ++ file.drop bytes.length := by
  by_cases hbytes : bytes = []
  · rw [hbytes, writeAt_nil, List.length_nil, List.drop_zero, List.nil_append]
  · have hempty : setLen file 0 = [] := by
      rw [setLen, List.take_zero, Nat.zero_sub, List.replicate_zero,
        List.append_nil]
    rw [writeAt, if_neg hbytes, hempty, List.nil_append, Nat.zero_add]

/-- A write that ends inside a bound keeps the file inside it. -/
theorem length_writeAt_le {file bytes : Bytes} {offset bound : ℕ}
    (hfile : file.length ≤ bound) (hwrite : offset + bytes.length ≤ bound) :
    (writeAt file offset bytes).length ≤ bound := by
  by_cases hbytes : bytes = []
  · simpa [hbytes] using hfile
  · rw [length_writeAt file offset hbytes]
    exact max_le hfile hwrite

/-- A write never shortens the file. -/
theorem length_le_length_writeAt (file : Bytes) (offset : ℕ) (bytes : Bytes) :
    file.length ≤ (writeAt file offset bytes).length := by
  by_cases hbytes : bytes = []
  · rw [hbytes, writeAt_nil]
  · rw [length_writeAt file offset hbytes]
    exact le_max_left _ _

/-- The bytes just written are there. -/
theorem getElem?_writeAt_inside {file bytes : Bytes} {offset position : ℕ}
    (hlow : offset ≤ position) (hhigh : position < offset + bytes.length) :
    (writeAt file offset bytes)[position]? = bytes[position - offset]? := by
  have hbytes : bytes ≠ [] := by
    rintro rfl
    simp at hhigh
    omega
  have hfront : (setLen file offset ++ bytes).length =
      offset + bytes.length := by simp
  rw [writeAt, if_neg hbytes, List.getElem?_append_left (by omega),
    List.getElem?_append_right (by simpa using hlow), length_setLen]

/-- Bytes of the file outside the write stay as they were. -/
theorem getElem?_writeAt_outside {file bytes : Bytes} {offset position : ℕ}
    (hfile : position < file.length)
    (houtside : position < offset ∨ offset + bytes.length ≤ position) :
    (writeAt file offset bytes)[position]? = file[position]? := by
  by_cases hbytes : bytes = []
  · simp [hbytes]
  · rw [writeAt, if_neg hbytes]
    rcases houtside with hbefore | hafter
    · rw [List.append_assoc,
        List.getElem?_append_left (by simpa using hbefore), setLen,
        List.getElem?_append_left (by simp; omega),
        List.getElem?_take_of_lt hbefore]
    · have hfront : (setLen file offset ++ bytes).length =
          offset + bytes.length := by simp
      rw [List.getElem?_append_right (by omega), hfront,
        List.getElem?_drop]
      congr 1
      omega

/-- Two writes one behind the other are one write. -/
theorem writeAt_writeAt (file : Bytes) (offset : ℕ) (first second : Bytes) :
    writeAt (writeAt file offset first) (offset + first.length) second =
      writeAt file offset (first ++ second) := by
  by_cases hfirst : first = []
  · rw [hfirst, writeAt_nil, List.length_nil, Nat.add_zero, List.nil_append]
  · by_cases hsecond : second = []
    · rw [hsecond, writeAt_nil, List.append_nil]
    · have hboth : first ++ second ≠ [] := by simp [hfirst]
      have hfront : (setLen file offset ++ first).length =
          offset + first.length := by simp
      have hlength := length_writeAt file offset hfirst
      have hset : setLen (writeAt file offset first)
          (offset + first.length) = setLen file offset ++ first := by
        unfold setLen at hfront ⊢
        rw [hlength, Nat.sub_eq_zero_of_le (le_max_right _ _),
          List.replicate_zero, List.append_nil, writeAt, if_neg hfirst]
        unfold setLen
        rw [← hfront, List.take_left]
      have hrest : (writeAt file offset first).drop
          (offset + first.length + second.length) =
          file.drop (offset + (first ++ second).length) := by
        rw [writeAt, if_neg hfirst, List.drop_append, hfront,
          List.drop_eq_nil_of_le (by rw [hfront]; omega), List.nil_append,
          List.drop_drop, List.length_append]
        congr 1
        omega
      rw [writeAt, if_neg hsecond, hset, hrest, writeAt, if_neg hboth]
      simp only [List.append_assoc]

/-! ## Agreement with a source

`Agrees file source low high`: between the two positions the file holds the
source's bytes. -/

def Agrees (file source : Bytes) (low high : ℕ) : Prop :=
  ∀ position, low ≤ position → position < high →
    file[position]? = source[position]?

/-- Writing the source's own bytes at their own place spoils no agreement. -/
theorem Agrees.writeAt {file source bytes : Bytes} {low high offset : ℕ}
    (hagrees : Agrees file source low high) (hhigh : high ≤ source.length)
    (hbytes : bytes = (source.drop offset).take bytes.length) :
    Agrees (writeAt file offset bytes) source low high := by
  intro position hlow hposition
  by_cases hinside :
      offset ≤ position ∧ position < offset + bytes.length
  · rw [getElem?_writeAt_inside hinside.1 hinside.2, hbytes,
      List.getElem?_take_of_lt (by omega), List.getElem?_drop]
    congr 1
    omega
  · have hold := hagrees position hlow hposition
    have hsource : position < source.length := by omega
    have hfile : position < file.length := by
      by_contra hnot
      rw [List.getElem?_eq_none (by omega),
        List.getElem?_eq_getElem hsource] at hold
      contradiction
    rw [getElem?_writeAt_outside hfile (by omega)]
    exact hold

/-- A write of the source's bytes establishes the agreement over its range. -/
theorem agrees_writeAt {source bytes : Bytes} {offset : ℕ} (file : Bytes)
    (hbytes : bytes = (source.drop offset).take bytes.length) :
    Agrees (writeAt file offset bytes) source offset
      (offset + bytes.length) := by
  intro position hlow hhigh
  rw [getElem?_writeAt_inside hlow hhigh, hbytes,
    List.getElem?_take_of_lt (by omega), List.getElem?_drop]
  congr 1
  omega

/-- A file that agrees with the source over its whole length, and is no
longer, is the source. -/
theorem eq_of_agrees {file source : Bytes}
    (hagrees : Agrees file source 0 source.length)
    (hlength : file.length ≤ source.length) : file = source := by
  apply List.ext_getElem?
  intro position
  by_cases hposition : position < source.length
  · exact hagrees position (Nat.zero_le _) hposition
  · rw [List.getElem?_eq_none (by omega), List.getElem?_eq_none (by omega)]

/-! ## A file and the writes made to it

`Written length writes file`: the file had this length, and the writes were
made to it, in some order. -/

def Covers (write : ℕ × Bytes) (position : ℕ) : Prop :=
  write.1 ≤ position ∧ position < write.1 + write.2.length

structure Written (length : ℕ) (writes : List (ℕ × Bytes)) (file : Bytes) :
    Prop where
  atLeast : length ≤ file.length
  reaches : ∀ write ∈ writes, write.2 ≠ [] →
    write.1 + write.2.length ≤ file.length
  noLonger : file.length = length ∨
    ∃ write ∈ writes, write.2 ≠ [] ∧ file.length = write.1 + write.2.length
  bytes : ∀ position, (∃ write ∈ writes, Covers write position) →
    ∃ write ∈ writes, Covers write position ∧
      file[position]? = write.2[position - write.1]?

theorem written_nil (file : Bytes) : Written file.length [] file where
  atLeast := le_rfl
  reaches := by simp
  noLonger := Or.inl rfl
  bytes := by simp

theorem Covers.ne_nil {write : ℕ × Bytes} {position : ℕ}
    (hcovers : Covers write position) : write.2 ≠ [] := by
  intro hnil
  obtain ⟨hlow, hhigh⟩ := hcovers
  rw [hnil, List.length_nil] at hhigh
  omega

/-- One more write. -/
theorem Written.write {length : ℕ} {writes : List (ℕ × Bytes)} {file : Bytes}
    (hwritten : Written length writes file) (offset : ℕ) (bytes : Bytes) :
    Written length (writes ++ [(offset, bytes)])
      (writeAt file offset bytes) := by
  have hgrows := length_le_length_writeAt file offset bytes
  constructor
  · exact hwritten.atLeast.trans hgrows
  · intro write hwrite hne
    rcases List.mem_append.mp hwrite with hold | hnew
    · exact (hwritten.reaches write hold hne).trans hgrows
    · rw [List.mem_singleton.mp hnew] at hne ⊢
      rw [length_writeAt file offset hne]
      exact le_max_right _ _
  · by_cases hnil : bytes = []
    · subst hnil
      rw [writeAt_nil]
      rcases hwritten.noLonger with hlength | ⟨write, hwrite, hne, hlength⟩
      · exact Or.inl hlength
      · exact Or.inr ⟨write, List.mem_append_left _ hwrite, hne, hlength⟩
    · rw [length_writeAt file offset hnil]
      by_cases hpast : file.length < offset + bytes.length
      · refine Or.inr ⟨(offset, bytes), by simp, hnil, ?_⟩
        exact max_eq_right hpast.le
      · rw [max_eq_left (Nat.le_of_not_lt hpast)]
        rcases hwritten.noLonger with hlength | ⟨write, hwrite, hne, hlength⟩
        · exact Or.inl hlength
        · exact Or.inr ⟨write, List.mem_append_left _ hwrite, hne, hlength⟩
  · intro position hcovered
    by_cases hinside : Covers (offset, bytes) position
    · refine ⟨(offset, bytes), by simp, hinside, ?_⟩
      exact getElem?_writeAt_inside hinside.1 hinside.2
    · have hold : ∃ write ∈ writes, Covers write position := by
        obtain ⟨write, hwrite, hcovers⟩ := hcovered
        rcases List.mem_append.mp hwrite with hold | hnew
        · exact ⟨write, hold, hcovers⟩
        · rw [List.mem_singleton.mp hnew] at hcovers
          exact absurd hcovers hinside
      obtain ⟨write, hwrite, hcovers, hbyte⟩ := hwritten.bytes position hold
      refine ⟨write, List.mem_append_left _ hwrite, hcovers, ?_⟩
      have hreach := hwritten.reaches write hwrite hcovers.ne_nil
      rw [getElem?_writeAt_outside (hcovers.2.trans_le hreach)]
      · exact hbyte
      · unfold Covers at hinside
        dsimp only at hinside
        omega

/-- The file keeps its length when no write reaches past it. -/
theorem Written.length_eq_iff {length : ℕ} {writes : List (ℕ × Bytes)}
    {file : Bytes} (hwritten : Written length writes file) :
    file.length = length ↔
      ∀ write ∈ writes, write.2 ≠ [] → write.1 + write.2.length ≤ length := by
  constructor
  · intro hlength write hwrite hne
    rw [← hlength]
    exact hwritten.reaches write hwrite hne
  · intro hinside
    rcases hwritten.noLonger with hlength | ⟨write, hwrite, hne, hlength⟩
    · exact hlength
    · have hle := hinside write hwrite hne
      have hge := hwritten.atLeast
      omega

/-! ## Several writes -/

/-- One write after the other, each as a whole. -/
def writeAll (file : Bytes) (writes : List (ℕ × Bytes)) : Bytes :=
  writes.foldl (fun file write => writeAt file write.1 write.2) file

@[simp] theorem writeAll_nil (file : Bytes) : writeAll file [] = file := rfl

theorem writeAll_append (file : Bytes) (first second : List (ℕ × Bytes)) :
    writeAll file (first ++ second) = writeAll (writeAll file first) second :=
  List.foldl_append

theorem writeAll_cons (file : Bytes) (write : ℕ × Bytes)
    (writes : List (ℕ × Bytes)) :
    writeAll file (write :: writes) =
      writeAll (writeAt file write.1 write.2) writes := rfl

/-- Writes of nothing change nothing. -/
theorem writeAll_of_empty {file : Bytes} {writes : List (ℕ × Bytes)}
    (hempty : ∀ write ∈ writes, write.2 = []) : writeAll file writes = file := by
  induction writes generalizing file with
  | nil => rfl
  | cons write writes ih =>
      have hwrite := hempty write List.mem_cons_self
      rw [writeAll_cons, hwrite, writeAt_nil]
      exact ih fun other hother =>
        hempty other (List.mem_cons_of_mem _ hother)

/-- A write of nothing, or none at all, keeps what no write covers. -/
theorem getElem?_writeAll_outside {file : Bytes} {writes : List (ℕ × Bytes)}
    {position : ℕ} (hfile : position < file.length)
    (houtside : ∀ write ∈ writes, ¬ Covers write position) :
    (writeAll file writes)[position]? = file[position]? := by
  induction writes generalizing file with
  | nil => rfl
  | cons write writes ih =>
      have hgrows := length_le_length_writeAt file write.1 write.2
      have hwrite := houtside write List.mem_cons_self
      unfold Covers at hwrite
      rw [writeAll_cons, ih (hfile.trans_le hgrows) fun other hother =>
        houtside other (List.mem_cons_of_mem _ hother)]
      apply getElem?_writeAt_outside hfile
      omega

/-- Two writes that cover no position both. -/
def Apart (first second : ℕ × Bytes) : Prop :=
  ∀ position, Covers first position → ¬ Covers second position

/-- Where no two writes overlap, each one is in the file. -/
theorem getElem?_writeAll_inside {file : Bytes} {writes : List (ℕ × Bytes)}
    (hapart : writes.Pairwise Apart) {write : ℕ × Bytes}
    (hwrite : write ∈ writes) {position : ℕ}
    (hcovers : Covers write position) :
    (writeAll file writes)[position]? = write.2[position - write.1]? := by
  induction writes generalizing file with
  | nil => contradiction
  | cons first rest ih =>
      obtain ⟨hfirst, hrest⟩ := List.pairwise_cons.mp hapart
      rw [writeAll_cons]
      rcases List.mem_cons.mp hwrite with rfl | hmem
      · have hlength := length_writeAt file write.1 hcovers.ne_nil
        have hinside : position < (writeAt file write.1 write.2).length := by
          rw [hlength]
          exact hcovers.2.trans_le (le_max_right _ _)
        rw [getElem?_writeAll_outside hinside fun other hother =>
          hfirst other hother position hcovers]
        exact getElem?_writeAt_inside hcovers.1 hcovers.2
      · exact ih hrest hmem

end RandomAccessFile
