import P2pShare.JsonText
import P2pShare.TransitionMachine

/-!
# The identity file

`load` and `save` of `identity/storage.rs`, and `api_set_display_name`, which
rewrites the file in place: `std::fs::write` truncates it and then writes the
new content.  The machine takes one step for each system call, and the process
can be killed between any two.
-/

namespace P2pShare

open ByteStream MessagePack TransitionMachine

structure UserIdentity where
  publicKey : List Char
  privateKey : List Char
  displayName : List Char
  fingerprint : List Char
  createdAt : UInt64

/-- `serde_json`, on identities.  The text of an object is not valid JSON when
it is cut short. -/
structure IdentityJson where
  toStringPretty : UserIdentity → List Char
  fromStr : List Char → Except String UserIdentity
  fromStr_toStringPretty : ∀ identity,
    fromStr (toStringPretty identity) = .ok identity
  fromStr_cut : ∀ identity cut rest,
    toStringPretty identity = cut ++ rest → rest ≠ [] →
      ∃ error, fromStr cut = .error error

inductive StorageError where
  | io (text : String)
  | json (text : String)

def StorageError.toString : StorageError → String
  | io text => "I/O error: " ++ text
  | json text => "JSON error: " ++ text

/-- The bytes of a text, as `std::fs::write` gets them. -/
def fileContent (text : List Char) : Bytes := utf8 (String.ofList text)

/-- `read_to_string`, once the bytes have been read. -/
def readToString (bytes : Bytes) : Except StorageError (List Char) :=
  match ofUtf8 bytes with
  | some text => .ok text.toList
  | none => .error (.io "stream did not contain valid UTF-8")

namespace IdentityJson

variable (json : IdentityJson)

def encode (identity : UserIdentity) : Bytes :=
  fileContent (json.toStringPretty identity)

/-- `load`, where the file can be read; `none` is a path without a file. -/
def load : Option Bytes → Except StorageError (Option UserIdentity)
  | none => .ok none
  | some bytes =>
      match readToString bytes with
      | .error error => .error error
      | .ok content =>
          match json.fromStr content with
          | .error error => .error (.json error)
          | .ok identity => .ok (some identity)

end IdentityJson

/-- Where a call stands.  `content` is the text that `save` writes, and `rest`
the bytes of it that are not in the file. -/
inductive UpdateStage where
  | loading
  | creatingDir (identity : UserIdentity)
  | serializing (identity : UserIdentity)
  | opening (content : Bytes)
  | writing (rest : Bytes)
  | returned (result : Except String Unit)
  | killed

/-- `written` counts the bytes that the file has got since it was truncated. -/
structure NameUpdate where
  file : Option Bytes
  stage : UpdateStage
  written : Option ℕ

inductive UpdateEvent where
  | reads
  | createsDir
  | serializes
  | truncates
  | writes (count : ℕ)
  | returns
  | fails (error : StorageError)
  | killed

namespace NameUpdate

variable (json : IdentityJson) (name : List Char)

def loaded (s : NameUpdate) : NameUpdate :=
  match json.load s.file with
  | .error error => { s with stage := .returned (.error error.toString) }
  | .ok none => { s with stage := .returned (.error "no identity found") }
  | .ok (some identity) =>
      { s with stage := .creatingDir { identity with displayName := name } }

def next (s : NameUpdate) : UpdateEvent → Option NameUpdate
  | .killed =>
      match s.stage with
      | .returned _ | .killed => none
      | _ => some { s with stage := .killed }
  | .fails error =>
      match s.stage with
      | .returned _ | .killed => none
      | _ => some { s with stage := .returned (.error error.toString) }
  | .reads =>
      match s.stage with
      | .loading => some (s.loaded json name)
      | _ => none
  | .createsDir =>
      match s.stage with
      | .creatingDir identity => some { s with stage := .serializing identity }
      | _ => none
  | .serializes =>
      match s.stage with
      | .serializing identity =>
          some { s with stage := .opening (json.encode identity) }
      | _ => none
  | .truncates =>
      match s.stage with
      | .opening content =>
          some
            { file := some []
              stage := .writing content
              written := some 0 }
      | _ => none
  | .writes count =>
      match s.stage with
      | .writing rest =>
          if 0 < count ∧ count ≤ rest.length then
            some
              { file := s.file.map fun bytes => bytes ++ rest.take count
                stage := .writing (rest.drop count)
                written := s.written.map fun written => written + count }
          else none
      | _ => none
  | .returns =>
      match s.stage with
      | .writing [] => some { s with stage := .returned (.ok ()) }
      | _ => none

/-- A call with the identity `old` in the file. -/
structure Starts (old : UserIdentity) (s : NameUpdate) : Prop where
  stage : s.stage = .loading
  written : s.written = none
  stored : json.load s.file = .ok (some old)

def machine (old : UserIdentity) : Machine NameUpdate UpdateEvent where
  start := Starts json old
  next := next json name

end NameUpdate

def UserIdentity.renamed (old : UserIdentity) (name : List Char) :
    UserIdentity :=
  { old with displayName := name }

/-- `load` gives the old identity or the new one, with the same key pair. -/
def KeepsIdentity (json : IdentityJson) (old : UserIdentity)
    (name : List Char) (file : Option Bytes) : Prop :=
  ∃ identity, json.load file = .ok (some identity) ∧
    (identity = old ∨ identity = old.renamed name) ∧
    identity.publicKey = old.publicKey ∧
    identity.privateKey = old.privateKey

/-! ## Cut contents -/

theorem readToString_fileContent (text : List Char) :
    readToString (fileContent text) = .ok text := by
  unfold readToString fileContent
  rw [ofUtf8_utf8]
  simp only [String.toList_ofList]

theorem utf8_of_ofUtf8 {bytes : Bytes} {text : String}
    (hread : ofUtf8 bytes = some text) : utf8 text = bytes := by
  unfold ofUtf8 String.fromUTF8? at hread
  split at hread
  · cases hread
    rfl
  · cases hread

theorem readToString_eq_ok {bytes : Bytes} {text : List Char}
    (hread : readToString bytes = .ok text) : fileContent text = bytes := by
  unfold readToString at hread
  cases hutf8 : ofUtf8 bytes with
  | none =>
      rw [hutf8] at hread
      cases hread
  | some found =>
      rw [hutf8] at hread
      cases hread
      unfold fileContent
      rw [String.ofList_toList, utf8_of_ofUtf8 hutf8]

/-- What can be read of a cut content is the beginning of its text. -/
theorem readToString_cut {text found : List Char} {cut rest : Bytes}
    (hcontent : fileContent text = cut ++ rest)
    (hread : readToString cut = .ok found) :
    ∃ more, text = found ++ more ∧ (rest ≠ [] → more ≠ []) := by
  have hcut := readToString_eq_ok hread
  have hbytes : found.utf8Encode ++ ⟨rest.toArray⟩ = text.utf8Encode := by
    rw [← hcut] at hcontent
    apply ByteArray.ext
    apply Array.ext'
    rw [ByteArray.data_append, Array.toList_append]
    exact hcontent.symm
  obtain ⟨more, hmore⟩ :=
    List.isPrefix_of_utf8Encode_append_eq_utf8Encode _ hbytes
  refine ⟨more, hmore.symm, ?_⟩
  rintro hrest rfl
  rw [List.append_nil] at hmore
  rw [← hmore, hcut] at hcontent
  exact hrest (List.self_eq_append_right.mp hcontent)

namespace IdentityJson

variable {json : IdentityJson}

theorem load_encode (identity : UserIdentity) :
    json.load (some (json.encode identity)) = .ok (some identity) := by
  unfold load encode
  dsimp only
  rw [readToString_fileContent]
  dsimp only
  rw [json.fromStr_toStringPretty]

theorem load_cut {identity : UserIdentity} {cut rest : Bytes}
    (hcontent : json.encode identity = cut ++ rest) (hrest : rest ≠ []) :
    ∃ error, json.load (some cut) = .error error := by
  unfold load
  dsimp only
  cases hread : readToString cut with
  | error error => exact ⟨error, rfl⟩
  | ok found =>
      obtain ⟨more, htext, hmore⟩ := readToString_cut hcontent hread
      obtain ⟨error, herror⟩ :=
        json.fromStr_cut identity found more htext (hmore hrest)
      dsimp only
      rw [herror]
      exact ⟨_, rfl⟩

end IdentityJson

/-! ## The file during a call -/

namespace NameUpdate

variable (json : IdentityJson) (old : UserIdentity) (name : List Char)

/-- The new content. -/
def target : Bytes := json.encode (old.renamed name)

/-- Until the file is truncated it holds the old identity, and then the part of
the new content that was written. -/
def FileBooked (file : Option Bytes) : Option ℕ → Prop
  | none => json.load file = .ok (some old)
  | some written =>
      file = some ((target json old name).take written) ∧
        written ≤ (target json old name).length

def StageBooked (written : Option ℕ) : UpdateStage → Prop
  | .loading => written = none
  | .creatingDir identity | .serializing identity =>
      identity = old.renamed name ∧ written = none
  | .opening content => content = target json old name ∧ written = none
  | .writing rest =>
      ∃ count, written = some count ∧ rest = (target json old name).drop count
  | .returned _ | .killed => True

structure Booked (s : NameUpdate) : Prop where
  file : FileBooked json old name s.file s.written
  stage : StageBooked json old name s.written s.stage

variable {json old name}

theorem Starts.booked {s : NameUpdate} (hstart : Starts json old s) :
    Booked json old name s := by
  have hfile : FileBooked json old name s.file s.written := by
    rw [hstart.written]
    exact hstart.stored
  have hstage : StageBooked json old name s.written s.stage := by
    rw [hstart.stage, hstart.written]
    exact Eq.refl none
  exact ⟨hfile, hstage⟩

theorem Booked.loaded {s : NameUpdate} (hbooked : Booked json old name s)
    (hstage : s.stage = .loading) :
    Booked json old name (s.loaded json name) := by
  have hwritten : s.written = none := by
    have hloading := hbooked.stage
    rw [hstage] at hloading
    exact hloading
  have hfile := hbooked.file
  have hstored : json.load s.file = .ok (some old) := by
    rw [hwritten] at hfile
    exact hfile
  unfold NameUpdate.loaded
  rw [hstored]
  exact ⟨hfile, rfl, hwritten⟩

theorem Booked.truncated {s : NameUpdate} {content : Bytes}
    (hbooked : Booked json old name s) (hstage : s.stage = .opening content) :
    Booked json old name
      { file := some [], stage := .writing content, written := some 0 } := by
  have hopening := hbooked.stage
  rw [hstage] at hopening
  obtain ⟨hcontent, _⟩ := hopening
  exact ⟨⟨rfl, Nat.zero_le _⟩, 0, rfl, hcontent⟩

theorem Booked.wrote {s : NameUpdate} {rest : Bytes} {count : ℕ}
    (hbooked : Booked json old name s) (hstage : s.stage = .writing rest)
    (hcount : count ≤ rest.length) :
    Booked json old name
      { file := s.file.map fun bytes => bytes ++ rest.take count
        stage := .writing (rest.drop count)
        written := s.written.map fun written => written + count } := by
  have hwriting := hbooked.stage
  have hfile := hbooked.file
  rw [hstage] at hwriting
  obtain ⟨before, hwritten, hrest⟩ := hwriting
  rw [hwritten] at hfile
  obtain ⟨hbytes, hbefore⟩ := hfile
  rw [hrest, List.length_drop] at hcount
  rw [hwritten, hbytes, hrest]
  refine ⟨⟨?_, ?_⟩, before + count, rfl, ?_⟩
  · simp only [Option.map_some, List.take_add]
  · have hall : before + count ≤ (target json old name).length := by omega
    exact hall
  · simp only [List.drop_drop]

/-- One step keeps the books. -/
theorem Booked.next {s t : NameUpdate} {event : UpdateEvent}
    (hbooked : Booked json old name s)
    (hnext : NameUpdate.next json name s event = some t) :
    Booked json old name t := by
  unfold NameUpdate.next at hnext
  cases event with
  | killed =>
      cases hstage : s.stage <;> rw [hstage] at hnext <;> cases hnext
      all_goals exact ⟨hbooked.file, trivial⟩
  | fails error =>
      cases hstage : s.stage <;> rw [hstage] at hnext <;> cases hnext
      all_goals exact ⟨hbooked.file, trivial⟩
  | reads =>
      cases hstage : s.stage <;> rw [hstage] at hnext <;> cases hnext
      exact hbooked.loaded hstage
  | createsDir =>
      cases hstage : s.stage <;> rw [hstage] at hnext <;> cases hnext
      have hcreating := hbooked.stage
      rw [hstage] at hcreating
      exact ⟨hbooked.file, hcreating⟩
  | serializes =>
      cases hstage : s.stage <;> rw [hstage] at hnext <;> cases hnext
      have hserializing := hbooked.stage
      rw [hstage] at hserializing
      obtain ⟨hidentity, hwritten⟩ := hserializing
      refine ⟨hbooked.file, ?_, hwritten⟩
      rw [hidentity]
      rfl
  | truncates =>
      cases hstage : s.stage <;> rw [hstage] at hnext <;> cases hnext
      exact hbooked.truncated hstage
  | writes count =>
      cases hstage : s.stage <;> rw [hstage] at hnext <;> try cases hnext
      dsimp only at hnext
      split at hnext
      · next hcount =>
          cases hnext
          exact hbooked.wrote hstage hcount.2
      · cases hnext
  | returns =>
      cases hstage : s.stage <;> rw [hstage] at hnext <;> try cases hnext
      dsimp only at hnext
      split at hnext
      · cases hnext
        exact ⟨hbooked.file, trivial⟩
      · cases hnext

theorem booked {s : NameUpdate}
    (hreach : (machine json name old).Reachable s) :
    Booked json old name s :=
  hreach.invariant (fun _ hstart => hstart.booked)
    fun _ _ _ hbooked hnext => hbooked.next hnext

end NameUpdate

/-! ## Whether the identity is kept -/

theorem keepsIdentity_of_old {json : IdentityJson} {old : UserIdentity}
    {name : List Char} {file : Option Bytes}
    (hload : json.load file = .ok (some old)) :
    KeepsIdentity json old name file :=
  ⟨old, hload, Or.inl rfl, rfl, rfl⟩

theorem keepsIdentity_of_renamed {json : IdentityJson} {old : UserIdentity}
    {name : List Char} {file : Option Bytes}
    (hload : json.load file = .ok (some (old.renamed name))) :
    KeepsIdentity json old name file :=
  ⟨old.renamed name, hload, Or.inr rfl, rfl, rfl⟩

theorem keepsIdentity_take_iff {json : IdentityJson} {old : UserIdentity}
    {name : List Char} {written : ℕ}
    (hwritten : written ≤ (NameUpdate.target json old name).length) :
    KeepsIdentity json old name
        (some ((NameUpdate.target json old name).take written)) ↔
      written = (NameUpdate.target json old name).length := by
  constructor
  · rintro ⟨identity, hload, _⟩
    by_contra hpartial
    have hrest : (NameUpdate.target json old name).drop written ≠ [] := by
      intro hdrop
      exact hpartial
        (Nat.le_antisymm hwritten (List.drop_eq_nil_iff.mp hdrop))
    have hcut : json.encode (old.renamed name) =
        (NameUpdate.target json old name).take written ++
          (NameUpdate.target json old name).drop written :=
      (List.take_append_drop written _).symm
    obtain ⟨error, herror⟩ := IdentityJson.load_cut hcut hrest
    rw [herror] at hload
    cases hload
  · intro hall
    rw [hall, List.take_length]
    exact keepsIdentity_of_renamed (IdentityJson.load_encode _)

/-- Wherever the call stops, the identity can be loaded exactly when the file
was not truncated or the whole new content was written. -/
theorem rename_keeps_identity_iff (json : IdentityJson) (old : UserIdentity)
    (name : List Char) {s : NameUpdate}
    (hreach : (NameUpdate.machine json name old).Reachable s) :
    KeepsIdentity json old name s.file ↔
      s.written = none ∨
        s.written = some (json.encode (old.renamed name)).length := by
  have hfile := (NameUpdate.booked hreach).file
  cases hwritten : s.written with
  | none =>
      rw [hwritten] at hfile
      exact iff_of_true (keepsIdentity_of_old hfile) (Or.inl rfl)
  | some written =>
      rw [hwritten] at hfile
      obtain ⟨hbytes, hle⟩ := hfile
      rw [hbytes, keepsIdentity_take_iff hle]
      simp only [reduceCtorEq, false_or, Option.some.injEq]
      rfl

/-! ## An identity of the app -/

namespace UserIdentity

/-- The fields in the order of the text. -/
def fields (identity : UserIdentity) :
    List Char × List Char × List Char × List Char × UInt64 :=
  (identity.publicKey, identity.privateKey, identity.displayName,
    identity.fingerprint, identity.createdAt)

def ofFields : List Char × List Char × List Char × List Char × UInt64 →
    UserIdentity :=
  fun (publicKey, privateKey, displayName, fingerprint, createdAt) =>
    { publicKey, privateKey, displayName, fingerprint, createdAt }

end UserIdentity

open JsonText in
def createdAtLine : Writer UInt64 :=
  line.via UInt64.toNat
    (fun value =>
      if value < 18446744073709551616 then some (UInt64.ofNat value) else none)
    fun value => by
      rw [if_pos value.toNat_lt, UInt64.ofNat_toNat]

open JsonText in
def identityWriter : Writer UserIdentity :=
  ((quoted.after "\x7b\n  \"public_key\": ".toList).pair
    ((quoted.after ",\n  \"private_key\": ".toList).pair
      ((quoted.after ",\n  \"display_name\": ".toList).pair
        ((quoted.after ",\n  \"fingerprint\": ".toList).pair
          ((createdAtLine.after ",\n  \"created_at\": ".toList).before
            "\x7d".toList))))).via
    UserIdentity.fields (fun found => some (UserIdentity.ofFields found))
    fun _ => rfl

def eofError : String := "EOF while parsing a value at line 1 column 0"

/-- The layout of `to_string_pretty`; only texts of that layout are read. -/
def prettyJson : IdentityJson where
  toStringPretty := identityWriter.put
  fromStr := fun text =>
    match identityWriter.read text with
    | some identity => .ok identity
    | none => .error eofError
  fromStr_toStringPretty := by
    intro identity
    rw [identityWriter.read_put]
  fromStr_cut := by
    intro identity cut rest htext hrest
    rw [identityWriter.read_of_cut htext hrest]
    exact ⟨eofError, rfl⟩

def ann : UserIdentity where
  publicKey := List.replicate 64 '7'
  privateKey := List.replicate 64 '2'
  displayName := "Ann".toList
  fingerprint := "APPLE-0001-PEAR-0002".toList
  createdAt := 1700000000

namespace NameUpdate

variable {json : IdentityJson} {old : UserIdentity} {name : List Char}

def stored (json : IdentityJson) (old : UserIdentity) : NameUpdate where
  file := some (json.encode old)
  stage := .loading
  written := none

theorem stored_starts : Starts json old (stored json old) :=
  ⟨rfl, rfl, IdentityJson.load_encode old⟩

/-- A call that nothing stops before the file is truncated. -/
theorem truncates_stored :
    (machine json name old).runFrom (stored json old)
        [.reads, .createsDir, .serializes, .truncates] =
      some
        { file := some []
          stage := .writing (target json old name)
          written := some 0 } := by
  have hload : json.load (stored json old).file = .ok (some old) :=
    IdentityJson.load_encode old
  have hloaded : (stored json old).loaded json name =
      { stored json old with stage := .creatingDir (old.renamed name) } := by
    unfold loaded
    rw [hload]
    rfl
  simp only [Machine.runFrom, machine, next, stored, Option.bind_some]
  unfold stored at hloaded
  rw [hloaded]
  rfl

/-- The file between its truncation and the first byte. -/
def truncated (json : IdentityJson) (old : UserIdentity) (name : List Char) :
    NameUpdate where
  file := some []
  stage := .writing (target json old name)
  written := some 0

def renamed (json : IdentityJson) (old : UserIdentity) (name : List Char) :
    NameUpdate where
  file := some (target json old name)
  stage := .returned (.ok ())
  written := some (target json old name).length

theorem truncated_reachable :
    (machine json name old).Reachable (truncated json old name) :=
  Machine.Reachable.of_runFrom stored_starts truncates_stored

theorem renamed_reachable (hcontent : target json old name ≠ []) :
    (machine json name old).Reachable (renamed json old name) := by
  have hlength : 0 < (target json old name).length :=
    List.length_pos_iff.mpr hcontent
  have hwrite : (machine json name old).next (truncated json old name)
      (.writes (target json old name).length) =
      some { renamed json old name with stage := .writing [] } := by
    simp only [machine, next, truncated, renamed, hlength, Nat.le_refl,
      and_self, if_true, Option.map_some, List.take_length, List.drop_length,
      List.nil_append, Nat.zero_add]
  have hreturn : (machine json name old).next
      { renamed json old name with stage := .writing [] } .returns =
      some (renamed json old name) := rfl
  exact (truncated_reachable.step hwrite).step hreturn

theorem killed_reachable :
    (machine json name old).Reachable
      { truncated json old name with stage := .killed } := by
  have hkill : (machine json name old).next (truncated json old name) .killed =
      some { truncated json old name with stage := .killed } := rfl
  exact truncated_reachable.step hkill

end NameUpdate

def bea : List Char := "Bea".toList

theorem bea_target_ne_nil : NameUpdate.target prettyJson ann bea ≠ [] := by
  decide +kernel

def annRenamed : NameUpdate := NameUpdate.renamed prettyJson ann bea

theorem rename_keeps_identity_sample :
    KeepsIdentity prettyJson ann bea annRenamed.file ↔
      annRenamed.written = none ∨
        annRenamed.written =
          some (prettyJson.encode (ann.renamed bea)).length :=
  rename_keeps_identity_iff prettyJson ann bea
    (NameUpdate.renamed_reachable bea_target_ne_nil)

/-- The process is killed between the truncation and the first byte. -/
theorem killed_rename_loses_identity :
    ¬ ∀ s, (NameUpdate.machine prettyJson bea ann).Reachable s →
      KeepsIdentity prettyJson ann bea s.file := by
  intro hkeeps
  obtain ⟨identity, hload, _⟩ := hkeeps _ NameUpdate.killed_reachable
  have hempty : prettyJson.encode (ann.renamed bea) =
      [] ++ NameUpdate.target prettyJson ann bea := by
    unfold NameUpdate.target
    rw [List.nil_append]
  obtain ⟨error, herror⟩ := IdentityJson.load_cut hempty bea_target_ne_nil
  unfold NameUpdate.truncated at hload
  rw [herror] at hload
  cases hload

end P2pShare
