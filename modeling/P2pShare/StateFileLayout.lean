import P2pShare.ControlCodec
import P2pShare.JsonArrays
import P2pShare.StateFileBytes

/-!
# A layout of the state files

The texts of `to_string_pretty` for transfer states.  Overlapping saves of one
session id are shown to spoil its file.
-/

namespace P2pShare

open ByteStream FileTable JsonText PathResolution RandomAccessFile
open TransitionMachine

/-! ## The texts -/

def indentOf (width : ℕ) : List Char := List.replicate width ' '

def bytesWriter (indent outer : ℕ) : JsonText.Writer Bytes :=
  (JsonText.Writer.array (indentOf indent) (indentOf outer)).via
    (fun bytes => bytes.map UInt8.toNat)
    (fun values => some (values.map UInt8.ofNat)) fun bytes => by
      have hbytes : UInt8.ofNat ∘ UInt8.toNat = id :=
        funext fun _ => UInt8.ofNat_toNat
      rw [List.map_map, hbytes, List.map_id]

def textWriter : JsonText.Writer String :=
  quoted.via String.toList (fun text => some (String.ofList text)) fun text => by
    rw [String.ofList_toList]

theorem isDigit_comma : Char.isDigit ',' = false := rfl

theorem isDigit_lineEnd : Char.isDigit '\n' = false := rfl

def comma : JsonText.Writer ℕ := JsonText.Writer.number ',' isDigit_comma

def lineEnd : JsonText.Writer ℕ := JsonText.Writer.number '\n' isDigit_lineEnd

def streamingWriter : JsonText.Writer StreamingConfig :=
  ((comma.after "\x7b\n      \"Streaming\": \x7b\n        \"buffer_chunks\": ".toList).pair
    ((lineEnd.after "\n        \"local_port\": ".toList).before
      "      \x7d\n    \x7d".toList)).via
    (fun config => (config.bufferChunks, config.localPort))
    (fun (bufferChunks, localPort) => some ⟨bufferChunks, localPort⟩)
    fun _ => rfl

def transferModeWriter : JsonText.Writer TransferMode :=
  ((JsonText.Writer.literal "\"Bulk\"".toList).either streamingWriter
    fun _ _ => rfl).via
    (fun mode => match mode with
      | .bulk => .inl ()
      | .streaming config => .inr config)
    (fun form => match form with
      | .inl () => some .bulk
      | .inr config => some (.streaming config))
    fun mode => by cases mode <;> rfl

def manifestWriter : JsonText.Writer FileManifest :=
  (((bytesWriter 6 4).after "\x7b\n    \"session_id\": ".toList).pair
    ((textWriter.after ",\n    \"filename\": ".toList).pair
      ((textWriter.after ",\n    \"mime_type\": ".toList).pair
        ((comma.after ",\n    \"total_size\": ".toList).pair
          ((comma.after "\n    \"chunk_size\": ".toList).pair
            ((comma.after "\n    \"chunk_count\": ".toList).pair
              ((transferModeWriter.after "\n    \"transfer_mode\": ".toList).pair
                ((lineEnd.after ",\n    \"created_at\": ".toList).before
                  "  \x7d".toList)))))))).via
    manifestFields buildFields buildFields_manifestFields

namespace TransferState

def fields (state : TransferState) :
    Bytes × FileManifest × List ℕ × RawPath :=
  (state.sessionId, state.manifest, state.haveChunks, state.outputPath)

def ofFields : Bytes × FileManifest × List ℕ × RawPath → TransferState :=
  fun (sessionId, manifest, chunksDone, outputPath) =>
    ⟨sessionId, manifest, chunksDone.toFinset, outputPath⟩

theorem ofFields_fields (state : TransferState) :
    ofFields state.fields = state := by
  unfold ofFields fields haveChunks
  dsimp only
  rw [Finset.sort_toFinset]

end TransferState

def stateWriter : JsonText.Writer TransferState :=
  (((bytesWriter 4 2).after "\x7b\n  \"session_id\": ".toList).pair
    ((manifestWriter.after ",\n  \"manifest\": ".toList).pair
      (((JsonText.Writer.array (indentOf 4) (indentOf 2)).after
          ",\n  \"chunks_done\": ".toList).pair
        ((quoted.after ",\n  \"output_path\": ".toList).before
          "\n\x7d".toList)))).via
    TransferState.fields (fun found => some (TransferState.ofFields found))
    fun state => congrArg some state.ofFields_fields

/-- Only texts of the layout are read. -/
def prettyStateJson : StateJson where
  toStringPretty := fun value => stateWriter.put value.state
  fromStr := fun text =>
    match stateWriter.read text with
    | some state => .ok state
    | none => .error eofError
  fromStr_toStringPretty := by
    intro value
    rw [stateWriter.read_put]
  fromStr_cut := by
    intro value cut rest htext hrest
    rw [stateWriter.read_of_cut htext hrest]
    exact ⟨eofError, rfl⟩

/-- A text of the layout with more behind it is not one. -/
theorem parse_longer (value : TypedState) {more : Bytes} (hmore : more ≠ []) :
    ∃ error,
      prettyStateJson.parse (prettyStateJson.encode value ++ more) =
        .error error := by
  unfold StateJson.parse
  cases hread : readToString (prettyStateJson.encode value ++ more) with
  | error error => exact ⟨.io, rfl⟩
  | ok found =>
      have hcontent := readToString_eq_ok hread
      obtain ⟨rest, htext, hrest⟩ :=
        readToString_cut hcontent (readToString_fileContent _)
      dsimp only [prettyStateJson]
      cases hstate : stateWriter.read found with
      | none => exact ⟨.json, rfl⟩
      | some state =>
          have hput : stateWriter.put state = found := by
            unfold JsonText.Writer.read at hstate
            obtain ⟨⟨other, _⟩, _, hother⟩ := Option.bind_eq_some_iff.mp hstate
            dsimp only at hother
            split at hother
            · next hsame =>
                cases hother
                exact hsame
            · cases hother
          rw [← hput] at htext
          exact absurd (stateWriter.eq_nil_of_put_eq_append htext) (hrest hmore)

/-! ## Overlapping saves -/

def freshDisk : StateDisk := ⟨.empty _, []⟩

/-- Two saves that both truncate their file before either writes. -/
def overlap (first second : TypedState) : List DiskStep :=
  [.begins .save first, .begins .save second, .call 0 .createsDir,
    .call 1 .createsDir, .call 0 .serializes, .call 1 .serializes,
    .call 0 .truncates, .call 1 .truncates,
    .call 0 (.writes (prettyStateJson.encode first).length),
    .call 1 (.writes (prettyStateJson.encode second).length),
    .call 0 .returns, .call 1 .returns]

theorem encode_ne_nil (value : TypedState) : prettyStateJson.encode value ≠ [] := by
  intro hnil
  have hread := readToString_fileContent (prettyStateJson.toStringPretty value)
  have hempty := readToString_fileContent []
  have hnone : fileContent [] = [] := rfl
  change prettyStateJson.encode value = [] at hnil
  unfold StateJson.encode at hnil
  rw [hnil] at hread
  rw [hnone, hread] at hempty
  cases hempty

theorem writeAt_empty (bytes : Bytes) : writeAt [] 0 bytes = bytes := by
  rw [writeAt_zero, List.drop_nil, List.append_nil]

section Overlap

variable {first second : TypedState} {files : StateDirectory} {file : ℕ}

/-- The directory once the first save has truncated its file. -/
def emptied (path : List Char) : StateDirectory :=
  ((Directory.empty (List Char)).link path).put 0 []

theorem file_emptied (path : List Char) : (emptied path).file path = some 0 :=
  Function.update_self ..

theorem file_emptied_of_ne {path other : List Char} (hother : other ≠ path) :
    (emptied path).file other = none :=
  Function.update_of_ne hother ..

/-- The two calls before they write. -/
def opened (first second : TypedState) (files : StateDirectory) (file : ℕ) :
    StateDisk :=
  ⟨files,
    [⟨.save, first, .writing 0 0 (prettyStateJson.encode first)⟩,
      ⟨.save, second, .writing file 0 (prettyStateJson.encode second)⟩]⟩

theorem overlap_opened
    (hcreate : (emptied (statePath first.state.sessionId)).create
      (statePath second.state.sessionId) = (files, file)) :
    (StateDisk.machine prettyStateJson).runFrom freshDisk
        ((overlap first second).take 8) =
      some (opened first second files file) := by
  have hfirst : (StateDisk.machine prettyStateJson).runFrom freshDisk
      ((overlap first second).take 7) =
      some ⟨emptied (statePath first.state.sessionId),
        [⟨.save, first, .writing 0 0 (prettyStateJson.encode first)⟩,
          ⟨.save, second, .opening (prettyStateJson.encode second)⟩]⟩ := rfl
  have hsecond : (StateDisk.machine prettyStateJson).runFrom
      ⟨emptied (statePath first.state.sessionId),
        [⟨.save, first, .writing 0 0 (prettyStateJson.encode first)⟩,
          ⟨.save, second, .opening (prettyStateJson.encode second)⟩]⟩
      [.call 1 .truncates] = some (opened first second files file) := by
    simp only [Machine.runFrom, StateDisk.machine, StateDisk.next,
      StoreCall.step, StoreCall.path, List.getElem?_cons_succ,
      List.getElem?_cons_zero, hcreate, Option.map_some, Option.bind_some,
      List.set_cons_succ, List.set_cons_zero, opened]
  exact Machine.runFrom_append hfirst hsecond

/-- Both saves return `Ok`, and each has written all its bytes. -/
theorem overlap_written
    (hcreate : (emptied (statePath first.state.sessionId)).create
      (statePath second.state.sessionId) = (files, file)) :
    (StateDisk.machine prettyStateJson).runFrom freshDisk
        (overlap first second) =
      some ⟨(files.write 0 0 (prettyStateJson.encode first)).write file 0
          (prettyStateJson.encode second),
        [⟨.save, first, .returned (.ok ())⟩,
          ⟨.save, second, .returned (.ok ())⟩]⟩ := by
  have hfirst := List.length_pos_iff.mpr (encode_ne_nil first)
  have hsecond := List.length_pos_iff.mpr (encode_ne_nil second)
  have hrest : (StateDisk.machine prettyStateJson).runFrom
      (opened first second files file) ((overlap first second).drop 8) =
      some ⟨(files.write 0 0 (prettyStateJson.encode first)).write file 0
          (prettyStateJson.encode second),
        [⟨.save, first, .returned (.ok ())⟩,
          ⟨.save, second, .returned (.ok ())⟩]⟩ := by
    simp only [overlap, opened, List.drop_succ_cons, List.drop_zero,
      Machine.runFrom, StateDisk.machine, StateDisk.next, StoreCall.step,
      List.getElem?_cons_succ, List.getElem?_cons_zero, hfirst, hsecond,
      Nat.le_refl, and_self, if_true, List.take_length, List.drop_length,
      Option.map_some, Option.bind_some, List.set_cons_succ,
      List.set_cons_zero]
  have hrun := Machine.runFrom_append (overlap_opened hcreate) hrest
  rw [List.take_append_drop] at hrun
  exact hrun

/-! ### Saves of one transfer -/

/-- The saves both return `Ok`, and nothing can be loaded. -/
theorem overlapping_saves_spoil_file
    (hid : second.state.sessionId = first.state.sessionId)
    (hshort : (prettyStateJson.encode second).length <
      (prettyStateJson.encode first).length) :
    ∃ t error, (StateDisk.machine prettyStateJson).runFrom freshDisk
          (overlap first second) = some t ∧
      prettyStateJson.load t.files first.state.sessionId = .error error := by
  have hfile := file_emptied (statePath first.state.sessionId)
  have hcreate : (emptied (statePath first.state.sessionId)).create
      (statePath second.state.sessionId) =
      ((emptied (statePath first.state.sessionId)).put 0 [], 0) := by
    unfold Directory.create
    rw [hid, hfile]
  have hempty : ((emptied (statePath first.state.sessionId)).put 0 []).content
      0 = [] := by
    simp [Directory.put]
  have hcontent : (((emptied (statePath first.state.sessionId)).put 0 []).write
      0 0 (prettyStateJson.encode first)).content 0 =
      prettyStateJson.encode first := by
    rw [Directory.content_write_self, hempty, writeAt_empty]
  have hread : ((((emptied (statePath first.state.sessionId)).put 0 []).write
      0 0 (prettyStateJson.encode first)).write 0 0
        (prettyStateJson.encode second)).read
          (statePath first.state.sessionId) = _ :=
    Directory.read_write_of_file hfile
  rw [hcontent, writeAt_zero] at hread
  have hmore : (prettyStateJson.encode first).drop
      (prettyStateJson.encode second).length ≠ [] := by
    intro hnil
    have hlength := List.drop_eq_nil_iff.mp hnil
    omega
  obtain ⟨error, herror⟩ := parse_longer second hmore
  refine ⟨_, error, overlap_written hcreate, ?_⟩
  unfold StateJson.load
  rw [hread]
  dsimp only
  rw [herror]

/-! ### Saves of two transfers -/

theorem create_emptied
    (hid : second.state.sessionId ≠ first.state.sessionId) :
    (emptied (statePath first.state.sessionId)).create
        (statePath second.state.sessionId) =
      (((emptied (statePath first.state.sessionId)).link
        (statePath second.state.sessionId)).put 1 [], 1) := by
  unfold Directory.create
  rw [file_emptied_of_ne fun hpath => hid (statePath_inj hpath)]
  rfl

/-- Neither save truncates the file of the other. -/
theorem overlap_apart
    (hid : second.state.sessionId ≠ first.state.sessionId) :
    (StateDisk.machine prettyStateJson).Meets StateDisk.Apart freshDisk
      (overlap first second) := by
  have hopening : (StateDisk.machine prettyStateJson).runFrom freshDisk
      ((overlap first second).take 6) =
      some ⟨.empty _,
        [⟨.save, first, .opening (prettyStateJson.encode first)⟩,
          ⟨.save, second, .opening (prettyStateJson.encode second)⟩]⟩ := rfl
  have hfirst : (StateDisk.machine prettyStateJson).runFrom
      ⟨.empty _,
        [⟨.save, first, .opening (prettyStateJson.encode first)⟩,
          ⟨.save, second, .opening (prettyStateJson.encode second)⟩]⟩
      [.call 0 .truncates] =
      some ⟨emptied (statePath first.state.sessionId),
        [⟨.save, first, .writing 0 0 (prettyStateJson.encode first)⟩,
          ⟨.save, second, .opening (prettyStateJson.encode second)⟩]⟩ := rfl
  have hprepares : ∀ event ∈ (overlap first second).take 6,
      ∀ s, StateDisk.Apart s event := by
    simp [overlap, StateDisk.Apart]
  have hwrites : ∀ event ∈ (overlap first second).drop 8,
      ∀ s, StateDisk.Apart s event := by
    simp [overlap, StateDisk.Apart]
  have hname : (emptied (statePath first.state.sessionId)).file
      (statePath second.state.sessionId) = none :=
    file_emptied_of_ne fun hpath => hid (statePath_inj hpath)
  refine Machine.meets_append hopening (Machine.meets_of_forall hprepares _)
    (Machine.meets_append hfirst ⟨?_, fun _ _ => True.intro⟩
      ⟨?_, fun t _ => Machine.meets_of_forall hwrites t⟩)
  · simp [StateDisk.Apart, StoreCall.openFile?]
  · simp [StateDisk.Apart, StoreCall.path, hname]

theorem load_encode {value : TypedState}
    (hread : files.read (statePath value.state.sessionId) =
      some (prettyStateJson.encode value)) :
    prettyStateJson.load files value.state.sessionId =
      .ok (some value.state) := by
  unfold StateJson.load StateJson.parse
  rw [hread]
  unfold StateJson.encode
  dsimp only
  rw [readToString_fileContent]
  dsimp only
  rw [prettyStateJson.fromStr_toStringPretty]

/-- Both saves return `Ok`, and both states can be loaded. -/
theorem overlapping_saves_loaded
    (hid : second.state.sessionId ≠ first.state.sessionId) :
    ∃ t, (StateDisk.machine prettyStateJson).runFrom freshDisk
          (overlap first second) = some t ∧
      prettyStateJson.load t.files first.state.sessionId =
        .ok (some first.state) ∧
      prettyStateJson.load t.files second.state.sessionId =
        .ok (some second.state) := by
  have hpath : statePath first.state.sessionId ≠
      statePath second.state.sessionId :=
    fun hpath => hid (statePath_inj hpath).symm
  refine ⟨_, overlap_written (create_emptied hid), load_encode ?_,
    load_encode ?_⟩
  · have hfile : (((emptied (statePath first.state.sessionId)).link
        (statePath second.state.sessionId)).put 1 []).file
          (statePath first.state.sessionId) = some 0 :=
      (Function.update_of_ne hpath ..).trans (file_emptied _)
    rw [Directory.read_write_of_ne (by rw [Directory.file_write, hfile]; simp),
      Directory.read_write_of_file hfile]
    simp [Directory.put, Directory.link, emptied, writeAt_empty]
  · have hfile : (((emptied (statePath first.state.sessionId)).link
        (statePath second.state.sessionId)).put 1 []).file
          (statePath second.state.sessionId) = some 1 :=
      Function.update_self ..
    rw [Directory.read_write_of_file
        (by rw [Directory.file_write]; exact hfile),
      Directory.content_write_of_ne Nat.one_ne_zero]
    simp [Directory.put, writeAt_empty]

end Overlap

/-! ## Two transfers -/

def smallManifest (byte : UInt8) : FileManifest where
  sessionId := List.replicate 20 byte
  filename := "a.txt"
  mimeType := "text/plain"
  totalSize := 3
  chunkSize := 65536
  chunkCount := 1
  transferMode := .bulk
  createdAt := 17
  sessionId_length := List.length_replicate
  totalSize_lt := by decide
  chunkSize_lt := by decide
  chunkCount_lt := by decide

def smallState (byte : UInt8) : TypedState where
  state := .new (smallManifest byte) "/tmp/a.txt".toList
  sessionId_length := List.length_replicate
  chunksDone_lt := fun index hindex => absurd hindex (Finset.notMem_empty index)
  createdAt_lt := by norm_num [TransferState.new, smallManifest]
  transferMode_typed := True.intro

def smallLookup (byte : UInt8) : Lookup :=
  ⟨fun _ => true, smallManifest byte, "/tmp".toList⟩

theorem findResumable_smallLookup {files : StateDirectory} {byte : UInt8}
    (hload : prettyStateJson.load files (smallState byte).state.sessionId =
      .ok (some (smallState byte).state)) :
    prettyStateJson.findResumable files (smallLookup byte).pathExists
        (smallLookup byte).manifest (smallLookup byte).outputDir =
      some (smallState byte).state := by
  have hid : (smallLookup byte).manifest.sessionId =
      (smallState byte).state.sessionId := rfl
  unfold StateJson.findResumable
  rw [hid, hload]
  exact if_pos rfl

/-- The saves overlap and return, and each state is found. -/
def savedTwice : List DiskStep :=
  overlap (smallState 7) (smallState 8) ++
    [.finds (smallLookup 7) (some (smallState 7).state),
      .finds (smallLookup 8) (some (smallState 8).state)]

theorem state_files_refine_function_sample :
    ∃ t steps, StateStore.machine.runFrom (freshDisk.store prettyStateJson)
        steps = some (StateDisk.store prettyStateJson t) ∧
      steps.filterMap StoreStep.label? =
        savedTwice.filterMap DiskStep.label? := by
  have hid : (smallState 8).state.sessionId ≠ (smallState 7).state.sessionId := by
    decide
  have hstart : (StateDisk.machine prettyStateJson).start freshDisk := rfl
  obtain ⟨t, hsaved, hseven, height⟩ := overlapping_saves_loaded hid
  have hfinds : (StateDisk.machine prettyStateJson).runFrom t
      [.finds (smallLookup 7) (some (smallState 7).state),
        .finds (smallLookup 8) (some (smallState 8).state)] = some t := by
    simp only [Machine.runFrom, StateDisk.machine, StateDisk.next,
      findResumable_smallLookup hseven, findResumable_smallLookup height,
      if_true, Option.bind_some]
  have hmeets : (StateDisk.machine prettyStateJson).Meets StateDisk.Apart
      freshDisk savedTwice :=
    Machine.meets_append hsaved (overlap_apart hid)
      ⟨True.intro, fun _ _ => ⟨True.intro, fun _ _ => True.intro⟩⟩
  obtain ⟨steps, _, hsteps, hlabels⟩ := state_files_refine_function
    prettyStateJson hstart hmeets (Machine.runFrom_append hsaved hfinds)
  exact ⟨t, steps, hsteps, hlabels⟩

end P2pShare
