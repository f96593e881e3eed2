import P2pShare.Contacts
import P2pShare.FileTable
import P2pShare.IdentityFile
import P2pShare.Resume

/-!
# The bytes of the state files

`save`, `load` and `delete` of `transfer/resume.rs`, and `find_resumable`, on
the bytes of the directory `transfers`.  `std::fs::write` truncates a file and
then writes into it, so a call takes many steps; calls for any number of
transfers overlap, and a process can die between any two steps.

The rest of the development takes the state files to be a function of the
session id, with a save that takes effect at once or leaves a file that cannot
be read.  Here the calls on bytes are shown to refine the calls on that
function.
-/

namespace P2pShare

open ByteStream FileTable PathResolution RandomAccessFile TransitionMachine

/-! ## The calls on bytes -/

def TransferMode.Typed : TransferMode → Prop
  | .bulk => True
  | .streaming config =>
      config.bufferChunks < 4294967296 ∧ config.localPort < 65536

/-- A state whose numbers are in the range of their types. -/
structure TypedState where
  state : TransferState
  sessionId_length : state.sessionId.length = 20
  chunksDone_lt : ∀ index ∈ state.chunksDone, index < 4294967296
  createdAt_lt : state.manifest.createdAt < 18446744073709551616
  transferMode_typed : state.manifest.transferMode.Typed

/-- `serde_json`, on transfer states.  The text of an object is not valid JSON
when it is cut short. -/
structure StateJson where
  toStringPretty : TypedState → List Char
  fromStr : List Char → Except String TransferState
  fromStr_toStringPretty : ∀ value,
    fromStr (toStringPretty value) = .ok value.state
  fromStr_cut : ∀ value cut rest,
    toStringPretty value = cut ++ rest → rest ≠ [] →
      ∃ error, fromStr cut = .error error

/-- The name in the directory `transfers`. -/
def statePath (sessionId : Bytes) : List Char :=
  Hex.encode sessionId ++ ".json".toList

abbrev StateDirectory := Directory (List Char)

namespace StateJson

variable (json : StateJson)

def encode (value : TypedState) : Bytes := fileContent (json.toStringPretty value)

def parse (bytes : Bytes) : Except Error TransferState :=
  match readToString bytes with
  | .error _ => .error .io
  | .ok content =>
      match json.fromStr content with
      | .error _ => .error .json
      | .ok state => .ok state

def load (files : StateDirectory) (sessionId : Bytes) :
    Except Error (Option TransferState) :=
  match files.read (statePath sessionId) with
  | none => .ok none
  | some bytes =>
      match json.parse bytes with
      | .error error => .error error
      | .ok state => .ok (some state)

def findResumable (files : StateDirectory) (pathExists : RawPath → Bool)
    (manifest : FileManifest) (outputDir : RawPath) : Option TransferState :=
  if pathExists (outputPathFor outputDir manifest) then
    match json.load files manifest.sessionId with
    | .ok found => found
    | .error _ => none
  else none

end StateJson

inductive StoreVerb where
  | save
  | delete

/-- Where a call stands.  `file` and `place` are those of the handle that
`std::fs::write` opens, and `rest` the bytes it has not written. -/
inductive CallStage where
  | creatingDir
  | serializing
  | opening (content : Bytes)
  | writing (file place : ℕ) (rest : Bytes)
  | removing
  | removed
  | returned (result : Except Error Unit)
  | killed

structure StoreCall where
  verb : StoreVerb
  value : TypedState
  stage : CallStage

inductive CallEvent where
  | createsDir
  | serializes
  | truncates
  | writes (count : ℕ)
  | removes
  | returns
  | fails (error : Error)
  | killed

namespace StoreCall

def new : StoreVerb → TypedState → StoreCall
  | .save, value => ⟨.save, value, .creatingDir⟩
  | .delete, value => ⟨.delete, value, .removing⟩

def path (call : StoreCall) : List Char := statePath call.value.state.sessionId

/-- The file that the call has not written to its end. -/
def openFile? (call : StoreCall) : Option ℕ :=
  match call.stage with
  | .writing file _ (_ :: _) => some file
  | _ => none

def step (json : StateJson) (files : StateDirectory) (call : StoreCall) :
    CallEvent → Option (StateDirectory × StoreCall)
  | .createsDir =>
      match call.stage with
      | .creatingDir => some (files, { call with stage := .serializing })
      | _ => none
  | .serializes =>
      match call.stage with
      | .serializing =>
          some (files, { call with stage := .opening (json.encode call.value) })
      | _ => none
  | .truncates =>
      match call.stage with
      | .opening content =>
          let (files, file) := files.create call.path
          some (files, { call with stage := .writing file 0 content })
      | _ => none
  | .writes count =>
      match call.stage with
      | .writing file place rest =>
          if 0 < count ∧ count ≤ rest.length then
            some
              (files.write file place (rest.take count),
                { call with
                  stage := .writing file (place + count) (rest.drop count) })
          else none
      | _ => none
  | .removes =>
      match call.stage with
      | .removing =>
          some (files.unlink call.path, { call with stage := .removed })
      | _ => none
  | .returns =>
      match call.stage with
      | .writing _ _ [] | .removed =>
          some (files, { call with stage := .returned (.ok ()) })
      | _ => none
  | .fails error =>
      match call.stage with
      | .returned _ | .killed | .removed | .writing _ _ [] => none
      | _ => some (files, { call with stage := .returned (.error error) })
  | .killed =>
      match call.stage with
      | .returned _ | .killed => none
      | _ => some (files, { call with stage := .killed })

end StoreCall

/-- What `find_resumable` is asked, and what is found at the output path. -/
structure Lookup where
  pathExists : RawPath → Bool
  manifest : FileManifest
  outputDir : RawPath

structure StateDisk where
  files : StateDirectory
  calls : List StoreCall

/-- `finds`: a lookup that gives this answer. -/
inductive DiskStep where
  | begins (verb : StoreVerb) (value : TypedState)
  | call (number : ℕ) (event : CallEvent)
  | finds (lookup : Lookup) (found : Option TransferState)

namespace StateDisk

variable (json : StateJson)

def next (s : StateDisk) : DiskStep → Option StateDisk
  | .begins verb value => some { s with calls := s.calls ++ [.new verb value] }
  | .call number event =>
      match s.calls[number]? with
      | none => none
      | some call =>
          (call.step json s.files event).map fun (files, call) =>
            ⟨files, s.calls.set number call⟩
  | .finds lookup found =>
      if json.findResumable s.files lookup.pathExists lookup.manifest
          lookup.outputDir = found then some s
      else none

/-- Whatever files there are, no call is under way. -/
def machine : Machine StateDisk DiskStep where
  start := fun s => s.calls = []
  next := next json

/-- No call truncates a file that another one is still writing. -/
def Apart (s : StateDisk) : DiskStep → Prop
  | .call number .truncates =>
      ∀ call ∈ s.calls[number]?, ∀ other ∈ s.calls, ∀ file ∈ other.openFile?,
        s.files.file call.path ≠ some file
  | _ => True

instance (s : StateDisk) (event : DiskStep) : Decidable (s.Apart event) := by
  unfold Apart
  split
  · infer_instance
  · infer_instance

end StateDisk

/-! ## The calls on the function -/

/-- `torn`: the file has been truncated.  Once it is removed it is no longer the
one of its session id. -/
inductive AtomicStage where
  | pending
  | torn (linked : Bool)
  | done
  | returned (result : Except Error Unit)
  | killed

structure AtomicCall where
  verb : StoreVerb
  value : TypedState
  stage : AtomicStage

structure StateStore where
  files : StateFiles
  calls : List AtomicCall

inductive AtomicEvent where
  | tears
  | lands
  | removes
  | returns
  | fails (error : Error)
  | killed

inductive StoreStep where
  | begins (verb : StoreVerb) (value : TypedState)
  | call (number : ℕ) (event : AtomicEvent)
  | finds (lookup : Lookup) (found : Option TransferState)

namespace AtomicCall

def sessionId (call : AtomicCall) : Bytes := call.value.state.sessionId

/-- What the removal of a state file does to a call. -/
def unlinked (sessionId : Bytes) (call : AtomicCall) : AtomicCall :=
  match call.stage with
  | .torn linked =>
      { call with stage := .torn (linked && call.sessionId != sessionId) }
  | _ => call

end AtomicCall

namespace StateStore

def step (s : StateStore) (number : ℕ) (call : AtomicCall) :
    AtomicEvent → Option StateStore
  | .tears =>
      match call.verb, call.stage with
      | .save, .pending =>
          some
            ⟨Function.update s.files call.sessionId .unreadable,
              s.calls.set number { call with stage := .torn true }⟩
      | _, _ => none
  | .lands =>
      match call.stage with
      | .torn linked =>
          some
            ⟨if linked then call.value.state.save s.files else s.files,
              s.calls.set number { call with stage := .done }⟩
      | _ => none
  | .removes =>
      match call.verb, call.stage with
      | .delete, .pending =>
          some
            ⟨call.value.state.delete s.files,
              (s.calls.map fun other => other.unlinked call.sessionId).set
                number { call with stage := .done }⟩
      | _, _ => none
  | .returns =>
      match call.stage with
      | .done =>
          some
            { s with
              calls := s.calls.set number
                { call with stage := .returned (.ok ()) } }
      | _ => none
  | .fails error =>
      match call.stage with
      | .pending | .torn _ =>
          some
            { s with
              calls := s.calls.set number
                { call with stage := .returned (.error error) } }
      | _ => none
  | .killed =>
      match call.stage with
      | .returned _ | .killed => none
      | _ =>
          some
            { s with
              calls := s.calls.set number { call with stage := .killed } }
def next (s : StateStore) : StoreStep → Option StateStore
  | .begins verb value =>
      some { s with calls := s.calls ++ [⟨verb, value, .pending⟩] }
  | .finds lookup found =>
      if findResumable lookup.pathExists s.files lookup.manifest
          lookup.outputDir = found then some s
      else none
  | .call number event =>
      s.calls[number]?.bind fun call => s.step number call event

def machine : Machine StateStore StoreStep where
  start := fun s => s.calls = []
  next := next

end StateStore

/-! ## What both show -/

/-- The beginning and the end of the calls, and every answer of a lookup. -/
inductive StoreLabel where
  | begins (verb : StoreVerb) (value : TypedState)
  | returns (number : ℕ)
  | fails (number : ℕ) (error : Error)
  | killed (number : ℕ)
  | finds (lookup : Lookup) (found : Option TransferState)

def DiskStep.label? : DiskStep → Option StoreLabel
  | .begins verb value => some (.begins verb value)
  | .call number .returns => some (.returns number)
  | .call number (.fails error) => some (.fails number error)
  | .call number .killed => some (.killed number)
  | .call _ _ => none
  | .finds lookup found => some (.finds lookup found)

def StoreStep.label? : StoreStep → Option StoreLabel
  | .begins verb value => some (.begins verb value)
  | .call number .returns => some (.returns number)
  | .call number (.fails error) => some (.fails number error)
  | .call number .killed => some (.killed number)
  | .call _ _ => none
  | .finds lookup found => some (.finds lookup found)

/-! ## The state files that the bytes stand for -/

namespace StateJson

variable (json : StateJson)

def stateFile : Option Bytes → StateFile
  | none => .absent
  | some bytes =>
      match json.parse bytes with
      | .error _ => .unreadable
      | .ok state => .saved state

def stateFiles (files : StateDirectory) : StateFiles := fun sessionId =>
  json.stateFile (files.read (statePath sessionId))

end StateJson

/-- A call whose bytes are all in the file has taken effect. -/
def StoreCall.atomic (files : StateDirectory) (call : StoreCall) : AtomicCall where
  verb := call.verb
  value := call.value
  stage :=
    match call.stage with
    | .creatingDir | .serializing | .opening _ | .removing => .pending
    | .writing _ _ [] | .removed => .done
    | .writing file _ (_ :: _) => .torn (files.file call.path == some file)
    | .returned result => .returned result
    | .killed => .killed

def StateDisk.store (json : StateJson) (s : StateDisk) : StateStore where
  files := json.stateFiles s.files
  calls := s.calls.map (StoreCall.atomic s.files)

/-! ## One state file -/

theorem statePath_inj {sessionId other : Bytes}
    (hpath : statePath sessionId = statePath other) : sessionId = other := by
  have hencode : Hex.encode sessionId = Hex.encode other :=
    List.append_cancel_right hpath
  have hdecode := Hex.decode_encode sessionId
  rw [hencode, Hex.decode_encode, Option.some.injEq] at hdecode
  exact hdecode.symm

namespace StateJson

variable {json : StateJson}

theorem stateFile_encode (value : TypedState) :
    json.stateFile (some (json.encode value)) = .saved value.state := by
  unfold stateFile parse encode
  dsimp only
  rw [readToString_fileContent]
  dsimp only
  rw [json.fromStr_toStringPretty]

theorem stateFile_cut {value : TypedState} {cut rest : Bytes}
    (hcontent : json.encode value = cut ++ rest) (hrest : rest ≠ []) :
    json.stateFile (some cut) = .unreadable := by
  unfold stateFile parse
  dsimp only
  cases hread : readToString cut with
  | error error => rfl
  | ok found =>
      obtain ⟨more, htext, hmore⟩ := readToString_cut hcontent hread
      obtain ⟨error, herror⟩ :=
        json.fromStr_cut value found more htext (hmore hrest)
      dsimp only
      rw [herror]

/-- A step that changes one file changes the state file of one session id. -/
theorem stateFiles_of_read {files made : StateDirectory} {sessionId : Bytes}
    (hother : ∀ name, name ≠ statePath sessionId →
      made.read name = files.read name) :
    json.stateFiles made = Function.update (json.stateFiles files) sessionId
      (json.stateFile (made.read (statePath sessionId))) := by
  funext id
  unfold stateFiles
  by_cases hid : id = sessionId
  · rw [hid, Function.update_self]
  · rw [Function.update_of_ne hid,
      hother _ fun hpath => hid (statePath_inj hpath)]

theorem stateFiles_of_same {files made : StateDirectory}
    (hread : ∀ name, json.stateFile (made.read name) =
      json.stateFile (files.read name)) :
    json.stateFiles made = json.stateFiles files :=
  funext fun _ => hread _

theorem findResumable_stateFiles (files : StateDirectory)
    (pathExists : RawPath → Bool) (manifest : FileManifest)
    (outputDir : RawPath) :
    json.findResumable files pathExists manifest outputDir =
      P2pShare.findResumable pathExists (json.stateFiles files) manifest
        outputDir := by
  unfold findResumable P2pShare.findResumable TransferState.load load
    stateFiles stateFile
  cases files.read (statePath manifest.sessionId) with
  | none => rfl
  | some bytes =>
      dsimp only
      cases json.parse bytes with
      | error error => rfl
      | ok state => rfl

end StateJson

/-! ## The calls under way -/

/-- What the call has written of its content is all that the file has, and the
file has no other name. -/
structure StoreCall.UnderWay (json : StateJson) (files : StateDirectory)
    (call : StoreCall) (file place : ℕ) (rest : Bytes) : Prop where
  file_lt : file < files.used
  place : (files.content file).length = place
  content : json.encode call.value = files.content file ++ rest
  named : ∀ name, files.file name = some file → name = call.path

def StoreCall.Sound (json : StateJson) (files : StateDirectory)
    (call : StoreCall) : Prop :=
  match call.stage with
  | .creatingDir | .serializing => call.verb = .save
  | .opening content => call.verb = .save ∧ content = json.encode call.value
  | .writing file place rest =>
      rest ≠ [] → call.UnderWay json files file place rest
  | .removing => call.verb = .delete
  | .removed | .returned _ | .killed => True

structure StateDisk.Sound (json : StateJson) (s : StateDisk) : Prop where
  calls : ∀ call ∈ s.calls, call.Sound json s.files
  alone : ∀ (number other : ℕ) (first second : StoreCall) (file : ℕ),
    s.calls[number]? = some first → s.calls[other]? = some second →
    first.openFile? = some file → second.openFile? = some file →
    number = other

theorem StoreCall.openFile?_eq_some {call : StoreCall} {file : ℕ} :
    call.openFile? = some file ↔
      ∃ place rest, rest ≠ [] ∧ call.stage = .writing file place rest := by
  unfold openFile?
  constructor
  · intro hfile
    split at hfile
    · next found place byte rest hstage =>
        cases hfile
        exact ⟨place, byte :: rest, List.cons_ne_nil _ _, hstage⟩
    · cases hfile
  · rintro ⟨place, rest, hrest, hstage⟩
    obtain ⟨byte, more, rfl⟩ := List.exists_cons_of_ne_nil hrest
    rw [hstage]

theorem StoreCall.Sound.keeps {json : StateJson} {files made : StateDirectory}
    {call : StoreCall} (hsound : call.Sound json files)
    (hkeeps : ∀ file, call.openFile? = some file → files.Keeps made file) :
    call.Sound json made := by
  unfold Sound at hsound ⊢
  cases hstage : call.stage with
  | writing file place rest =>
      rw [hstage] at hsound
      intro hrest
      have hway := hsound hrest
      have hkept := hkeeps file
        (openFile?_eq_some.mpr ⟨place, rest, hrest, hstage⟩)
      exact
        { file_lt := Nat.lt_of_lt_of_le hway.file_lt hkept.used_le
          place := by rw [hkept.content, hway.place]
          content := by rw [hkept.content, hway.content]
          named := fun name hname => hway.named name (hkept.file_of name hname) }
  | creatingDir | serializing | opening content | removing | removed
  | returned result | killed =>
      rw [hstage] at hsound
      exact hsound

theorem StoreCall.atomic_writing {files : StateDirectory} {call : StoreCall}
    {file place : ℕ} {rest : Bytes} (hstage : call.stage = .writing file place rest)
    (hrest : rest ≠ []) :
    call.atomic files =
      ⟨call.verb, call.value, .torn (files.file call.path == some file)⟩ := by
  obtain ⟨byte, more, rfl⟩ := List.exists_cons_of_ne_nil hrest
  unfold atomic
  rw [hstage]

theorem StoreCall.atomic_written {files : StateDirectory} {call : StoreCall}
    {file place : ℕ} (hstage : call.stage = .writing file place []) :
    call.atomic files = ⟨call.verb, call.value, .done⟩ := by
  unfold atomic
  rw [hstage]

/-- A call that fails has not taken effect, or not to its end. -/
theorem StoreCall.unfinished_of_fails {json : StateJson} {files made : StateDirectory}
    {call moved : StoreCall} {error : Error}
    (hstep : call.step json files (.fails error) = some (made, moved)) :
    made = files ∧ moved = { call with stage := .returned (.error error) } ∧
      ((call.atomic files).stage = .pending ∨
        ∃ linked, (call.atomic files).stage = .torn linked) := by
  unfold step at hstep
  dsimp only at hstep
  unfold atomic
  dsimp only
  cases hstage : call.stage with
  | creatingDir | serializing | opening content | removing =>
      rw [hstage] at hstep
      cases hstep
      exact ⟨rfl, rfl, .inl rfl⟩
  | writing file place rest =>
      rw [hstage] at hstep
      cases rest with
      | nil => cases hstep
      | cons byte rest =>
          cases hstep
          exact ⟨rfl, rfl, .inr ⟨_, rfl⟩⟩
  | removed | returned result | killed =>
      rw [hstage] at hstep
      cases hstep

theorem StoreCall.running_of_killed {json : StateJson} {files made : StateDirectory}
    {call moved : StoreCall}
    (hstep : call.step json files .killed = some (made, moved)) :
    made = files ∧ moved = { call with stage := .killed } ∧
      (∀ result, (call.atomic files).stage ≠ .returned result) ∧
      (call.atomic files).stage ≠ .killed := by
  unfold step at hstep
  dsimp only at hstep
  unfold atomic
  dsimp only
  cases hstage : call.stage with
  | creatingDir | serializing | opening content | removing | removed =>
      rw [hstage] at hstep
      cases hstep
      exact ⟨rfl, rfl, fun _ h => AtomicStage.noConfusion h,
        fun h => AtomicStage.noConfusion h⟩
  | writing file place rest =>
      rw [hstage] at hstep
      cases hstep
      cases rest with
      | nil => simp
      | cons byte rest => simp
  | returned result | killed =>
      rw [hstage] at hstep
      cases hstep

/-- A call whose file keeps its name looks the same. -/
theorem StoreCall.atomic_eq {files made : StateDirectory} {call : StoreCall}
    (hlinked : ∀ file, call.openFile? = some file →
      (made.file call.path = some file ↔ files.file call.path = some file)) :
    call.atomic made = call.atomic files := by
  unfold atomic
  cases hstage : call.stage with
  | writing file place rest =>
      cases rest with
      | nil => rfl
      | cons byte rest =>
          have hfile := hlinked file (openFile?_eq_some.mpr
            ⟨place, byte :: rest, List.cons_ne_nil _ _, hstage⟩)
          have hsame : (made.file call.path == some file) =
              (files.file call.path == some file) := by
            rw [Bool.eq_iff_iff, beq_iff_eq, beq_iff_eq, hfile]
          dsimp only
          rw [hsame]
  | creatingDir | serializing | opening content | removing | removed
  | returned result | killed => rfl

theorem StoreCall.new_sound {json : StateJson} (files : StateDirectory) (verb : StoreVerb)
    (value : TypedState) : (StoreCall.new verb value).Sound json files := by
  cases verb with
  | save => rfl
  | delete => rfl

theorem StoreCall.new_atomic (files : StateDirectory) (verb : StoreVerb)
    (value : TypedState) :
    (StoreCall.new verb value).atomic files = ⟨verb, value, .pending⟩ := by
  cases verb with
  | save => rfl
  | delete => rfl

theorem StoreCall.new_openFile? (verb : StoreVerb) (value : TypedState) :
    (StoreCall.new verb value).openFile? = none := by
  cases verb with
  | save => rfl
  | delete => rfl

namespace StateDisk

/-! ## One step -/

/-- Steps of the calls on the function that show the same. -/
def Simulated (json : StateJson) (s t : StateDisk) (event : DiskStep) : Prop :=
  ∃ steps, StateStore.machine.runFrom (s.store json) steps =
      some (t.store json) ∧
    steps.filterMap StoreStep.label? = event.label?.toList

variable {json : StateJson} {s : StateDisk} {number : ℕ} {call moved : StoreCall}

/-- The calls of the function after a step that only one of them notices. -/
theorem store_calls {made : StateDirectory}
    (hothers : ∀ (other : ℕ) (found : StoreCall), other ≠ number →
      s.calls[other]? = some found →
      found.atomic made = found.atomic s.files) :
    (s.calls.set number moved).map (StoreCall.atomic made) =
      (s.calls.map (StoreCall.atomic s.files)).set number
        (moved.atomic made) := by
  apply List.ext_getElem?
  intro other
  rw [List.getElem?_map, List.getElem?_set, List.getElem?_set,
    List.length_map, List.getElem?_map]
  by_cases hsame : number = other
  · rw [if_pos hsame, if_pos hsame]
    split
    · rfl
    · rfl
  · rw [if_neg hsame, if_neg hsame]
    cases hfound : s.calls[other]? with
    | none => rfl
    | some found =>
        rw [Option.map_some, Option.map_some,
          hothers other found (fun h => hsame h.symm) hfound]

theorem store_getElem? (hnumber : s.calls[number]? = some call) :
    (s.store json).calls[number]? = some (call.atomic s.files) := by
  unfold store
  dsimp only
  rw [List.getElem?_map, hnumber, Option.map_some]

/-- One step of a call on the function is enough. -/
theorem simulated_of_step {t : StateDisk} {event : CallEvent}
    (atomic : AtomicEvent) (hnumber : s.calls[number]? = some call)
    (hstep : (s.store json).step number (call.atomic s.files) atomic =
      some (t.store json))
    (hlabel : (StoreStep.call number atomic).label? =
      (DiskStep.call number event).label?) :
    Simulated json s t (.call number event) := by
  refine ⟨[.call number atomic], ?_, ?_⟩
  · change ((StateStore.next (s.store json) (.call number atomic)).bind
      some) = _
    unfold StateStore.next
    dsimp only
    rw [store_getElem? hnumber, Option.bind_some, hstep, Option.bind_some]
  · rw [List.filterMap_cons, hlabel]
    cases (DiskStep.call number event).label? with
    | none => rfl
    | some label => rfl

/-- A step that the function does not notice. -/
theorem simulated_of_eq {t : StateDisk} {event : DiskStep}
    (hstore : t.store json = s.store json) (hlabel : event.label? = none) :
    Simulated json s t event := by
  refine ⟨[], ?_, ?_⟩
  · rw [hstore]
    rfl
  · rw [hlabel]
    rfl

/-- A step of a call that changes no file. -/
theorem store_stage (number : ℕ) (moved : StoreCall) :
    StateDisk.store json ⟨s.files, s.calls.set number moved⟩ =
      { s.store json with
        calls := (s.store json).calls.set number (moved.atomic s.files) } := by
  unfold store
  dsimp only
  rw [store_calls fun _ _ _ _ => rfl]

theorem store_stage_same (hnumber : s.calls[number]? = some call)
    (hsame : moved.atomic s.files = call.atomic s.files) :
    StateDisk.store json ⟨s.files, s.calls.set number moved⟩ = s.store json := by
  have hget : (s.store json).calls[number]? = some (call.atomic s.files) :=
    store_getElem? hnumber
  obtain ⟨hlt, hcall⟩ := List.getElem?_eq_some_iff.mp hget
  rw [store_stage, hsame, ← hcall, List.set_getElem_self]

/-- The others are still where they were, and the call is not in a file of
theirs. -/
theorem Sound.set {made : StateDirectory} (hsound : s.Sound json)
    (hmoved : moved.Sound json made)
    (hkeeps : ∀ (other : ℕ) (found : StoreCall) (file : ℕ), other ≠ number →
      s.calls[other]? = some found → found.openFile? = some file →
      s.files.Keeps made file ∧ moved.openFile? ≠ some file) :
    StateDisk.Sound json ⟨made, s.calls.set number moved⟩ where
  calls := by
    intro found hfound
    obtain ⟨other, hother⟩ := List.mem_iff_getElem?.mp hfound
    dsimp only at hother
    rw [List.getElem?_set] at hother
    split at hother
    · split at hother
      · cases hother
        exact hmoved
      · cases hother
    · next hne =>
        have hmem := List.mem_of_getElem? hother
        apply (hsound.calls found hmem).keeps
        intro file hfile
        exact (hkeeps other found file (fun h => hne h.symm) hother hfile).1
  alone := by
    intro one two first second file hone htwo hfirst hsecond
    dsimp only at hone htwo
    rw [List.getElem?_set] at hone htwo
    by_cases hsame : number = one
    · by_cases hsame' : number = two
      · exact hsame.symm.trans hsame'
      · rw [if_neg hsame'] at htwo
        rw [if_pos hsame] at hone
        split at hone
        · cases hone
          exact absurd hfirst
            (hkeeps two second file (fun h => hsame' h.symm) htwo hsecond).2
        · cases hone
    · rw [if_neg hsame] at hone
      by_cases hsame' : number = two
      · rw [if_pos hsame'] at htwo
        split at htwo
        · cases htwo
          exact absurd hsecond
            (hkeeps one first file (fun h => hsame h.symm) hone hfirst).2
        · cases htwo
      · rw [if_neg hsame'] at htwo
        exact hsound.alone one two first second file hone htwo hfirst hsecond

/-- A step that changes no file. -/
theorem Sound.stage (hsound : s.Sound json)
    (hmoved : moved.Sound json s.files) (hopen : moved.openFile? = none) :
    StateDisk.Sound json ⟨s.files, s.calls.set number moved⟩ := by
  apply hsound.set hmoved
  intro other found file _ _ _
  refine ⟨⟨rfl, Nat.le_refl _, fun _ hname => hname⟩, ?_⟩
  rw [hopen]
  exact Option.some_ne_none _ ∘ Eq.symm

/-! ## Truncating -/

section Truncating

variable {content : Bytes} {made : StateDirectory} {file : ℕ}

theorem Sound.underWay (hsound : s.Sound json) {other : ℕ} {found : StoreCall}
    (hfound : s.calls[other]? = some found)
    (hopen : found.openFile? = some file) :
    ∃ place rest, rest ≠ [] ∧ found.stage = .writing file place rest ∧
      found.UnderWay json s.files file place rest := by
  obtain ⟨place, rest, hrest, hstage⟩ := StoreCall.openFile?_eq_some.mp hopen
  have hcall := hsound.calls found (List.mem_of_getElem? hfound)
  unfold StoreCall.Sound at hcall
  rw [hstage] at hcall
  exact ⟨place, rest, hrest, hstage, hcall hrest⟩

theorem sound_truncates (hsound : s.Sound json)
    (hnumber : s.calls[number]? = some call)
    (hapart : s.Apart (.call number .truncates))
    (hcontent : content = json.encode call.value)
    (hmade : s.files.Created call.path made file) :
    StateDisk.Sound json ⟨made, s.calls.set number
      { call with stage := .writing file 0 content }⟩ := by
  apply hsound.set
  · intro _
    have hempty : made.content file = [] := by
      rw [hmade.content, Function.update_self]
    exact
      { file_lt := hmade.number_lt
        place := by rw [hempty, List.length_nil]
        content := by rw [hempty, List.nil_append, hcontent]
        named := fun name hname => by
          by_contra hother
          change name ≠ call.path at hother
          have hmoved : s.files.file name = some file := by
            rw [hmade.file, Function.update_of_ne hother] at hname
            exact hname
          exact hmade.file_ne hother hmoved }
  · intro other found open_ _ hfound hopen
    obtain ⟨_, _, _, _, hway⟩ := hsound.underWay hfound hopen
    have hfile : s.files.file call.path ≠ some open_ :=
      hapart call hnumber found (List.mem_of_getElem? hfound) open_ hopen
    refine ⟨hmade.keeps hway.file_lt hfile, ?_⟩
    rintro hmoved
    obtain ⟨_, _, _, hstage⟩ := StoreCall.openFile?_eq_some.mp hmoved
    cases hstage
    rcases hmade.known with hknown | ⟨_, hnew⟩
    · exact hfile hknown
    · have hlt := hway.file_lt
      omega

theorem stateFiles_created (hmade : s.files.Created call.path made file) :
    json.stateFiles made = Function.update (json.stateFiles s.files)
      call.value.state.sessionId (json.stateFile (some [])) := by
  rw [← hmade.read_self]
  exact StateJson.stateFiles_of_read fun name hname => hmade.read_of_ne hname

theorem simulated_truncates (hsound : s.Sound json)
    (hnumber : s.calls[number]? = some call)
    (hapart : s.Apart (.call number .truncates))
    (hstage : call.stage = .opening content)
    (hverb : call.verb = .save)
    (hcontent : content = json.encode call.value)
    (hmade : s.files.Created call.path made file) :
    Simulated json s ⟨made, s.calls.set number
      { call with stage := .writing file 0 content }⟩
      (.call number .truncates) := by
  have hfiles : json.stateFiles made = Function.update (json.stateFiles s.files)
      call.value.state.sessionId (json.stateFile (some [])) :=
    stateFiles_created hmade
  have hcalls : ∀ moved : StoreCall,
      (s.calls.set number moved).map (StoreCall.atomic made) =
        (s.calls.map (StoreCall.atomic s.files)).set number
          (moved.atomic made) := by
    intro moved
    apply store_calls
    intro other found _ hfound
    apply StoreCall.atomic_eq
    intro open_ hopen
    obtain ⟨_, _, _, _, hway⟩ := hsound.underWay hfound hopen
    exact hmade.file_iff hway.file_lt
      (hapart call hnumber found (List.mem_of_getElem? hfound) open_ hopen)
  have htears : (s.store json).step number (call.atomic s.files) .tears =
      some
        ⟨Function.update (json.stateFiles s.files)
            call.value.state.sessionId .unreadable,
          (s.calls.map (StoreCall.atomic s.files)).set number
            ⟨.save, call.value, .torn true⟩⟩ := by
    unfold StoreCall.atomic
    rw [hstage, hverb]
    rfl
  have hlinked : made.file call.path = some file := by
    rw [hmade.file, Function.update_self]
  cases content with
  | cons byte rest =>
      apply simulated_of_step .tears hnumber _ rfl
      rw [htears, store, hfiles, hcalls]
      have htorn : json.stateFile (some []) = .unreadable :=
        StateJson.stateFile_cut hcontent.symm (List.cons_ne_nil _ _)
      have hatomic : StoreCall.atomic made
          { call with stage := .writing file 0 (byte :: rest) } =
          ⟨.save, call.value, .torn true⟩ := by
        rw [StoreCall.atomic_writing rfl (List.cons_ne_nil _ _)]
        change AtomicCall.mk call.verb call.value
          (.torn (made.file call.path == some file)) = _
        rw [hverb, beq_iff_eq.mpr hlinked]
      rw [htorn, hatomic]
  | nil =>
      -- A content without bytes is in the file as soon as it is truncated.
      have hwhole : json.stateFile (some []) = .saved call.value.state := by
        rw [hcontent, StateJson.stateFile_encode]
      have hdone : StoreCall.atomic made
          { call with stage := .writing file 0 [] } =
          ⟨.save, call.value, .done⟩ := by
        rw [StoreCall.atomic_written rfl, hverb]
      obtain ⟨hlt, _⟩ := List.getElem?_eq_some_iff.mp hnumber
      have htorn : ((s.calls.map (StoreCall.atomic s.files)).set number
          ⟨.save, call.value, .torn true⟩)[number]? =
          some ⟨.save, call.value, .torn true⟩ :=
        List.getElem?_set_self (by rw [List.length_map]; exact hlt)
      refine ⟨[.call number .tears, .call number .lands], ?_, rfl⟩
      simp only [Machine.runFrom, StateStore.machine, StateStore.next]
      rw [store_getElem? hnumber, Option.bind_some, htears, Option.bind_some,
        htorn, Option.bind_some]
      simp only [StateStore.step, if_true, Option.bind_some,
        TransferState.save, Function.update_idem, List.set_set]
      rw [store, hfiles, hcalls, hwhole, hdone]

end Truncating

/-! ## Writing -/

section Writing

variable {file place count : ℕ} {rest : Bytes}

/-- The bytes go to the end of the file. -/
theorem content_writes (hway : call.UnderWay json s.files file place rest) :
    (s.files.write file place (rest.take count)).content file =
      s.files.content file ++ rest.take count := by
  rw [Directory.content_write_self, ← hway.place, writeAt_length]

theorem sound_writes (hsound : s.Sound json)
    (hnumber : s.calls[number]? = some call)
    (hstage : call.stage = .writing file place rest) (hrest : rest ≠ [])
    (hway : call.UnderWay json s.files file place rest)
    (hcount : count ≤ rest.length) :
    StateDisk.Sound json ⟨s.files.write file place (rest.take count),
      s.calls.set number
        { call with stage := .writing file (place + count) (rest.drop count) }⟩ := by
  have hopen : call.openFile? = some file :=
    StoreCall.openFile?_eq_some.mpr ⟨place, rest, hrest, hstage⟩
  apply hsound.set
  · intro _
    have hcontent : (s.files.write file place (rest.take count)).content file =
        s.files.content file ++ rest.take count := content_writes hway
    exact
      { file_lt := hway.file_lt
        place := by
          rw [hcontent, List.length_append, hway.place, List.length_take,
            Nat.min_eq_left hcount]
        content := by
          rw [hcontent, List.append_assoc, List.take_append_drop]
          exact hway.content
        named := hway.named }
  · intro other found open_ hne hfound hother
    have hfile : open_ ≠ file := by
      rintro rfl
      exact hne (hsound.alone other number found call open_ hfound hnumber hother
        hopen)
    refine ⟨Directory.keeps_write hfile, ?_⟩
    intro hmoved
    obtain ⟨_, _, _, hwriting⟩ := StoreCall.openFile?_eq_some.mp hmoved
    cases hwriting
    exact hfile rfl

/-- Before the last byte nobody can tell. -/
theorem stateFiles_writes_cut
    (hway : call.UnderWay json s.files file place rest) (hrest : rest ≠ [])
    (hmore : rest.drop count ≠ []) :
    json.stateFiles (s.files.write file place (rest.take count)) =
      json.stateFiles s.files := by
  apply StateJson.stateFiles_of_same
  intro name
  by_cases hname : s.files.file name = some file
  · have hbefore : s.files.read name = some (s.files.content file) := by
      unfold Directory.read
      rw [hname, Option.map_some]
    have hcut : json.encode call.value =
        (s.files.content file ++ rest.take count) ++ rest.drop count := by
      rw [List.append_assoc, List.take_append_drop, hway.content]
    rw [Directory.read_write_of_file hname, ← hway.place, writeAt_length,
      hbefore, StateJson.stateFile_cut hcut hmore,
      StateJson.stateFile_cut hway.content hrest]
  · rw [Directory.read_write_of_ne hname]

/-- With the last byte the file is the state, under the name it still has. -/
theorem stateFiles_writes_end
    (hway : call.UnderWay json s.files file place rest)
    (hend : rest.drop count = []) :
    json.stateFiles (s.files.write file place (rest.take count)) =
      if s.files.file call.path == some file then
        call.value.state.save (json.stateFiles s.files)
      else json.stateFiles s.files := by
  have hwhole : json.encode call.value =
      s.files.content file ++ rest.take count := by
    rw [hway.content, ← List.take_append_drop count rest, hend,
      List.append_nil, List.take_take, Nat.min_self]
  by_cases hlinked : s.files.file call.path = some file
  · rw [if_pos (beq_iff_eq.mpr hlinked)]
    have hread : (s.files.write file place (rest.take count)).read
        (statePath call.value.state.sessionId) =
        some (json.encode call.value) := by
      have hread := @Directory.read_write_of_file _ s.files call.path file place
        (rest.take count) hlinked
      rw [← hway.place, writeAt_length, ← hwhole] at hread
      rw [← hway.place]
      exact hread
    have hother : ∀ name, name ≠ statePath call.value.state.sessionId →
        (s.files.write file place (rest.take count)).read name =
          s.files.read name := fun name hname =>
      Directory.read_write_of_ne fun hfile => hname (hway.named name hfile)
    rw [StateJson.stateFiles_of_read hother, hread, StateJson.stateFile_encode]
    rfl
  · rw [if_neg fun h => hlinked (beq_iff_eq.mp h)]
    apply StateJson.stateFiles_of_same
    intro name
    have hname : s.files.file name ≠ some file := by
      intro hname
      rw [hway.named name hname] at hname
      exact hlinked hname
    rw [Directory.read_write_of_ne hname]

theorem simulated_writes (hnumber : s.calls[number]? = some call)
    (hstage : call.stage = .writing file place rest) (hrest : rest ≠ [])
    (hway : call.UnderWay json s.files file place rest) :
    Simulated json s ⟨s.files.write file place (rest.take count),
      s.calls.set number
        { call with stage := .writing file (place + count) (rest.drop count) }⟩
      (.call number (.writes count)) := by
  have hcalls : ∀ moved : StoreCall,
      (s.calls.set number moved).map
          (StoreCall.atomic (s.files.write file place (rest.take count))) =
        (s.calls.map (StoreCall.atomic s.files)).set number
          (moved.atomic s.files) := fun moved =>
    @store_calls s number moved s.files fun _ _ _ _ => rfl
  have htorn : call.atomic s.files =
      ⟨call.verb, call.value, .torn (s.files.file call.path == some file)⟩ :=
    StoreCall.atomic_writing hstage hrest
  by_cases hend : rest.drop count = []
  · apply simulated_of_step .lands hnumber _ rfl
    have hlands : (s.store json).step number (call.atomic s.files) .lands =
        some
          ⟨if s.files.file call.path == some file then
              call.value.state.save (json.stateFiles s.files)
            else json.stateFiles s.files,
            (s.calls.map (StoreCall.atomic s.files)).set number
              ⟨call.verb, call.value, .done⟩⟩ := by
      rw [htorn]
      rfl
    rw [hlands, store, stateFiles_writes_end hway hend, hcalls, hend,
      StoreCall.atomic_written rfl]
  · apply simulated_of_eq _ rfl
    rw [store, stateFiles_writes_cut hway hrest hend]
    have hsame : StoreCall.atomic s.files { call with
        stage := .writing file (place + count) (rest.drop count) } =
        call.atomic s.files := by
      rw [htorn, StoreCall.atomic_writing rfl hend]
      rfl
    have hkept : StateDisk.store json ⟨s.files, s.calls.set number { call with
        stage := .writing file (place + count) (rest.drop count) }⟩ =
        s.store json := store_stage_same hnumber hsame
    unfold store at hkept ⊢
    rw [StateStore.mk.injEq] at hkept ⊢
    exact ⟨rfl, hkept.2⟩

end Writing

/-! ## Removing -/

/-- A call loses its file when the state file of its session id is removed. -/
theorem atomic_unlink (found : StoreCall) (call : StoreCall) :
    found.atomic (s.files.unlink call.path) =
      (found.atomic s.files).unlinked call.value.state.sessionId := by
  cases hstage : found.stage with
  | writing file place rest =>
      by_cases hrest : rest = []
      · subst hrest
        rw [StoreCall.atomic_written hstage, StoreCall.atomic_written hstage]
        rfl
      · rw [StoreCall.atomic_writing hstage hrest,
          StoreCall.atomic_writing hstage hrest, Directory.file_unlink]
        unfold AtomicCall.unlinked AtomicCall.sessionId
        dsimp only
        by_cases hid : found.value.state.sessionId = call.value.state.sessionId
        · have hpath : found.path = call.path := congrArg statePath hid
          rw [hpath, Function.update_self, hid]
          simp
        · have hpath : found.path ≠ call.path := fun h => hid (statePath_inj h)
          rw [Function.update_of_ne hpath]
          simp [hid]
  | creatingDir | serializing | opening content | removing | removed
  | returned result | killed =>
      unfold StoreCall.atomic AtomicCall.unlinked
      rw [hstage]

theorem sound_removes (hsound : s.Sound json) :
    StateDisk.Sound json ⟨s.files.unlink call.path,
      s.calls.set number { call with stage := .removed }⟩ := by
  apply hsound.set
  · exact True.intro
  · intro other found file _ _ _
    exact ⟨Directory.keeps_unlink file, Option.some_ne_none _ ∘ Eq.symm⟩

theorem simulated_removes (hnumber : s.calls[number]? = some call)
    (hstage : call.stage = .removing) (hverb : call.verb = .delete) :
    Simulated json s ⟨s.files.unlink call.path,
      s.calls.set number { call with stage := .removed }⟩
      (.call number .removes) := by
  apply simulated_of_step .removes hnumber _ rfl
  have hfiles : json.stateFiles (s.files.unlink call.path) =
      Function.update (json.stateFiles s.files) call.value.state.sessionId
        .absent := by
    have hother : ∀ name, name ≠ statePath call.value.state.sessionId →
        (s.files.unlink call.path).read name = s.files.read name :=
      fun name hname => Directory.read_unlink_of_ne hname
    have hself : (s.files.unlink call.path).read
        (statePath call.value.state.sessionId) = none :=
      Directory.read_unlink_self
    rw [StateJson.stateFiles_of_read hother, hself]
    rfl
  have hcalls : (s.calls.set number { call with stage := .removed }).map
        (StoreCall.atomic (s.files.unlink call.path)) =
      ((s.calls.map (StoreCall.atomic s.files)).map fun other =>
        other.unlinked call.value.state.sessionId).set number
          ⟨.delete, call.value, .done⟩ := by
    rw [List.map_set, List.map_map]
    congr 1
    · exact List.map_congr_left fun found _ => atomic_unlink found call
    · unfold StoreCall.atomic
      rw [hverb]
  have hremoves : (s.store json).step number (call.atomic s.files) .removes =
      some
        ⟨Function.update (json.stateFiles s.files) call.value.state.sessionId
            .absent,
          ((s.calls.map (StoreCall.atomic s.files)).map fun other =>
            other.unlinked call.value.state.sessionId).set number
              ⟨.delete, call.value, .done⟩⟩ := by
    unfold StoreCall.atomic
    rw [hstage, hverb]
    rfl
  rw [hremoves, store, hfiles, hcalls]

/-! ## Every step -/

theorem simulated_stage (atomic : AtomicEvent) {event : CallEvent}
    {stage : AtomicStage} (hnumber : s.calls[number]? = some call)
    (hbefore : (s.store json).step number (call.atomic s.files) atomic =
      some
        { s.store json with
          calls := (s.store json).calls.set number
            ⟨call.verb, call.value, stage⟩ })
    (hafter : moved.atomic s.files = ⟨call.verb, call.value, stage⟩)
    (hlabel : (StoreStep.call number atomic).label? =
      (DiskStep.call number event).label?) :
    Simulated json s ⟨s.files, s.calls.set number moved⟩
      (.call number event) := by
  apply simulated_of_step atomic hnumber _ hlabel
  rw [hbefore, store_stage, hafter]

theorem call_simulated (hsound : s.Sound json) {event : CallEvent}
    {made : StateDirectory} (hnumber : s.calls[number]? = some call)
    (hstep : call.step json s.files event = some (made, moved))
    (hapart : s.Apart (.call number event)) :
    StateDisk.Sound json ⟨made, s.calls.set number moved⟩ ∧
      Simulated json s ⟨made, s.calls.set number moved⟩
        (.call number event) := by
  have hcall := hsound.calls call (List.mem_of_getElem? hnumber)
  unfold StoreCall.Sound at hcall
  cases event with
  | createsDir =>
      unfold StoreCall.step at hstep
      dsimp only at hstep
      split at hstep
      · next hstage =>
          rw [hstage] at hcall
          cases hstep
          refine ⟨hsound.stage hcall rfl,
            simulated_of_eq (store_stage_same hnumber ?_) rfl⟩
          unfold StoreCall.atomic
          rw [hstage]
      · cases hstep
  | serializes =>
      unfold StoreCall.step at hstep
      dsimp only at hstep
      split at hstep
      · next hstage =>
          rw [hstage] at hcall
          cases hstep
          refine ⟨hsound.stage ⟨hcall, rfl⟩ rfl,
            simulated_of_eq (store_stage_same hnumber ?_) rfl⟩
          unfold StoreCall.atomic
          rw [hstage]
      · cases hstep
  | truncates =>
      unfold StoreCall.step at hstep
      dsimp only at hstep
      split at hstep
      · next content hstage =>
          rw [hstage] at hcall
          cases hcreate : s.files.create call.path with
          | mk files file =>
              rw [hcreate] at hstep
              cases hstep
              have hmade := Directory.create_created hcreate
              exact ⟨sound_truncates hsound hnumber hapart hcall.2 hmade,
                simulated_truncates hsound hnumber hapart hstage hcall.1 hcall.2
                  hmade⟩
      · cases hstep
  | writes count =>
      unfold StoreCall.step at hstep
      dsimp only at hstep
      split at hstep
      · next file place rest hstage =>
          rw [hstage] at hcall
          split at hstep
          · next hcount =>
              cases hstep
              have hrest : rest ≠ [] := by
                rintro rfl
                rw [List.length_nil] at hcount
                omega
              have hway := hcall hrest
              exact ⟨sound_writes hsound hnumber hstage hrest hway hcount.2,
                simulated_writes hnumber hstage hrest hway⟩
          · cases hstep
      · cases hstep
  | removes =>
      unfold StoreCall.step at hstep
      dsimp only at hstep
      split at hstep
      · next hstage =>
          rw [hstage] at hcall
          cases hstep
          exact ⟨sound_removes hsound, simulated_removes hnumber hstage hcall⟩
      · cases hstep
  | returns =>
      unfold StoreCall.step at hstep
      dsimp only at hstep
      split at hstep
      · next file place hstage =>
          cases hstep
          refine ⟨hsound.stage True.intro rfl,
            simulated_stage .returns hnumber ?_ rfl rfl⟩
          rw [StoreCall.atomic_written hstage]
          rfl
      · next hstage =>
          cases hstep
          refine ⟨hsound.stage True.intro rfl,
            simulated_stage .returns hnumber ?_ rfl rfl⟩
          unfold StoreCall.atomic
          rw [hstage]
          rfl
      · cases hstep
  | fails error =>
      obtain ⟨rfl, rfl, hunfinished⟩ := StoreCall.unfinished_of_fails hstep
      refine ⟨hsound.stage True.intro rfl,
        simulated_stage (.fails error) hnumber ?_ rfl rfl⟩
      unfold StateStore.step
      dsimp only
      rcases hunfinished with hpending | ⟨linked, htorn⟩
      · rw [hpending]
        rfl
      · rw [htorn]
        rfl
  | killed =>
      obtain ⟨rfl, rfl, hreturned, hkilled⟩ := StoreCall.running_of_killed hstep
      refine ⟨hsound.stage True.intro rfl,
        simulated_stage .killed hnumber ?_ rfl rfl⟩
      unfold StateStore.step
      dsimp only
      split
      · next result hresult => exact absurd hresult (hreturned result)
      · next hresult => exact absurd hresult hkilled
      · rfl

theorem begins_simulated (hsound : s.Sound json) (verb : StoreVerb)
    (value : TypedState) :
    StateDisk.Sound json ⟨s.files, s.calls ++ [.new verb value]⟩ ∧
      Simulated json s ⟨s.files, s.calls ++ [.new verb value]⟩
        (.begins verb value) := by
  refine ⟨⟨?_, ?_⟩, [.begins verb value], ?_, rfl⟩
  · intro call hcall
    rcases List.mem_append.mp hcall with hcall | hcall
    · exact hsound.calls call hcall
    · rw [List.mem_singleton] at hcall
      subst hcall
      exact StoreCall.new_sound s.files verb value
  · intro one two first second file hone htwo hfirst hsecond
    have hold : ∀ {number : ℕ} {call : StoreCall},
        (s.calls ++ [StoreCall.new verb value])[number]? = some call →
        call.openFile? = some file → s.calls[number]? = some call := by
      intro number call hcall hopen
      rw [List.getElem?_append] at hcall
      split at hcall
      · exact hcall
      · have hnew := List.mem_of_getElem? hcall
        rw [List.mem_singleton] at hnew
        rw [hnew, StoreCall.new_openFile?] at hopen
        contradiction
    exact hsound.alone one two first second file (hold hone hfirst)
      (hold htwo hsecond) hfirst hsecond
  · simp only [Machine.runFrom, StateStore.machine, StateStore.next,
      Option.bind_some]
    rw [store, store, List.map_append, List.map_singleton,
      StoreCall.new_atomic]

theorem next_simulated {t : StateDisk} {event : DiskStep} (hsound : s.Sound json)
    (hapart : s.Apart event) (hnext : next json s event = some t) :
    t.Sound json ∧ Simulated json s t event := by
  cases event with
  | begins verb value =>
      cases hnext
      exact begins_simulated hsound verb value
  | call number event =>
      unfold next at hnext
      dsimp only at hnext
      split at hnext
      · cases hnext
      · next call hnumber =>
          obtain ⟨⟨made, moved⟩, hstep, rfl⟩ := Option.map_eq_some_iff.mp hnext
          exact call_simulated hsound hnumber hstep hapart
  | finds lookup found =>
      unfold next at hnext
      dsimp only at hnext
      split at hnext
      · next hfound =>
          cases hnext
          refine ⟨hsound, [.finds lookup found], ?_, rfl⟩
          rw [StateJson.findResumable_stateFiles] at hfound
          simp only [Machine.runFrom, StateStore.machine, StateStore.next,
            store, hfound, if_true, Option.bind_some]
      · cases hnext

end StateDisk

/-- Whatever calls on the state files overlap, are cut short or fail, as long as
no call truncates a file that another one is still writing, there is a run of
the calls on the function of the session id with the same calls beginning and
ending, in the same order, and the same answer to every lookup. -/
theorem state_files_refine_function (json : StateJson) {s t : StateDisk}
    {events : List DiskStep} (hstart : (StateDisk.machine json).start s)
    (hmeets : (StateDisk.machine json).Meets StateDisk.Apart s events)
    (hrun : (StateDisk.machine json).runFrom s events = some t) :
    ∃ steps, StateStore.machine.start (s.store json) ∧
      StateStore.machine.runFrom (s.store json) steps = some (t.store json) ∧
      steps.filterMap StoreStep.label? = events.filterMap DiskStep.label? := by
  have hcalls : s.calls = [] := hstart
  have hsound : s.Sound json := by
    refine ⟨?_, ?_⟩
    · intro call hcall
      rw [hcalls] at hcall
      cases hcall
    · intro one two first second file hone
      rw [hcalls] at hone
      cases hone
  have hstore : StateStore.machine.start (s.store json) := by
    change s.calls.map (StoreCall.atomic s.files) = []
    rw [hcalls]
    rfl
  obtain ⟨steps, hsteps, hlabels⟩ := Machine.runFrom_simulated hsound hmeets hrun
    fun u event v hu happart hnext =>
      StateDisk.next_simulated hu happart hnext
  exact ⟨steps, hstore, hsteps, hlabels⟩

end P2pShare
