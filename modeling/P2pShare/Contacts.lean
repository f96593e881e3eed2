import P2pShare.TransitionMachine
import P2pShare.ByteStream
import P2pShare.LanDiscovery

/-!
# Contacts

The contact table of `contacts/store.rs` and the commands of its two front ends:
`api_add_contact` and `api_remove_contact`, and `contacts add` and
`contacts remove` of the command line.  Both look a fingerprint up before they
insert it, each with its own normalisation, and both insert a contact without
its public key.
-/

namespace P2pShare

open ByteStream TransitionMachine

/-! ## Texts -/

/-- The BIP-39 word list, and what `to_uppercase` makes of a character. -/
structure Texts where
  word : ℕ → List Char
  upper : Char → List Char

namespace Hex

def digit (value : ℕ) : Char :=
  if value < 10 then Char.ofNat (48 + value) else Char.ofNat (87 + value)

def value? (c : Char) : Option ℕ :=
  if 48 ≤ c.toNat ∧ c.toNat ≤ 57 then some (c.toNat - 48)
  else if 97 ≤ c.toNat ∧ c.toNat ≤ 102 then some (c.toNat - 87)
  else if 65 ≤ c.toNat ∧ c.toNat ≤ 70 then some (c.toNat - 55)
  else none

def encode (bytes : Bytes) : List Char :=
  bytes.flatMap fun byte => [digit (byte.toNat / 16), digit (byte.toNat % 16)]

def decode : List Char → Option Bytes
  | [] => some []
  | [_] => none
  | high :: low :: rest =>
      match value? high, value? low, decode rest with
      | some high, some low, some bytes =>
          some (UInt8.ofNat (high * 16 + low) :: bytes)
      | _, _, _ => none

theorem value?_digit : ∀ value ∈ List.range 16,
    value? (digit value) = some value := by
  decide

theorem decode_encode (bytes : Bytes) : decode (encode bytes) = some bytes := by
  induction bytes with
  | nil => rfl
  | cons byte rest ih =>
      have hbyte : byte.toNat < 256 := byte.toNat_lt
      have hhigh := value?_digit (byte.toNat / 16)
        (List.mem_range.mpr (by omega))
      have hlow := value?_digit (byte.toNat % 16)
        (List.mem_range.mpr (by omega))
      have hsum : byte.toNat / 16 * 16 + byte.toNat % 16 = byte.toNat := by
        omega
      have hrest : decode (encode (byte :: rest)) =
          match value? (digit (byte.toNat / 16)),
            value? (digit (byte.toNat % 16)), decode (encode rest) with
          | some high, some low, some bytes =>
              some (UInt8.ofNat (high * 16 + low) :: bytes)
          | _, _, _ => none := rfl
      rw [hrest, hhigh, hlow, ih]
      simp only [hsum, UInt8.ofNat_toNat]

end Hex

/-- A `[u8; 32]`. -/
abbrev PublicKey := { bytes : Bytes // bytes.length = 32 }

/-- `{:04}` of a number below 10000. -/
def fourDigits (value : ℕ) : List Char :=
  [Hex.digit (value / 1000 % 10), Hex.digit (value / 100 % 10),
    Hex.digit (value / 10 % 10), Hex.digit (value % 10)]

def toFingerprint (texts : Texts) (key : PublicKey) : List Char :=
  let at2 := fun i => ofBe ((key.val.drop i).take 2)
  toUppercase texts.upper (texts.word (at2 0 % 2048)) ++ ['-'] ++
    fourDigits (at2 2 % 10000) ++ ['-'] ++
    toUppercase texts.upper (texts.word (at2 4 % 2048)) ++ ['-'] ++
    fourDigits (at2 6 % 10000)

/-! ## The table -/

structure Contact (Id : Type) where
  id : Id
  displayName : List Char
  publicKey : List Char
  fingerprint : List Char
  lastKnownAddr : Option (List Char)
  addedAt : ℕ
  lastSeen : Option ℕ
  deriving DecidableEq

def Contact.new {Id : Type} (id : Id) (now : ℕ)
    (displayName publicKey fingerprint : List Char) : Contact Id where
  id := id
  displayName := displayName
  publicKey := publicKey
  fingerprint := fingerprint
  lastKnownAddr := none
  addedAt := now
  lastSeen := none

inductive ContactError (Id : Type) where
  | alreadyExists (fingerprint : List Char)
  | contactNotFound (id : Id)
  | uuid
  | database
  deriving DecidableEq

section Store

variable {Id : Type} [DecidableEq Id]

/-- The rows in the order of their insertion. -/
abbrev ContactRows (Id : Type) := List (Contact Id)

namespace ContactRows

variable (rows : ContactRows Id)

/-- `id` is the primary key. -/
def add (contact : Contact Id) : Except (ContactError Id) (ContactRows Id) :=
  if contact.id ∈ rows.map Contact.id then .error .database
  else .ok (rows ++ [contact])

def findByFingerprint (fingerprint : List Char) : Option (Contact Id) :=
  rows.find? fun contact => contact.fingerprint = fingerprint

def remove (id : Id) : Except (ContactError Id) (ContactRows Id) :=
  if id ∈ rows.map Contact.id then
    .ok (rows.filter fun contact => contact.id ≠ id)
  else .error (.contactNotFound id)

end ContactRows

/-! ## The front ends

`id` is the `Uuid::new_v4` of the new contact and `now` its time. -/

def apiAddContact (id : Id) (now : ℕ) (fingerprint displayName : List Char)
    (rows : ContactRows Id) :
    Except (ContactError Id) (ContactRows Id × Contact Id) :=
  match rows.findByFingerprint fingerprint with
  | some _ => .error (.alreadyExists fingerprint)
  | none =>
      let contact := Contact.new id now displayName [] fingerprint
      (rows.add contact).map fun rows => (rows, contact)

/-- `id` is what `Uuid::parse_str` makes of the argument. -/
def apiRemoveContact (id : Option Id) (rows : ContactRows Id) :
    Except (ContactError Id) (ContactRows Id) :=
  match id with
  | none => .error .uuid
  | some id => rows.remove id

def contactsAdd (texts : Texts) (id : Id) (now : ℕ)
    (fingerprint name : List Char) (rows : ContactRows Id) :
    Except (ContactError Id) (ContactRows Id) :=
  let fingerprint := toUppercase texts.upper fingerprint
  match rows.findByFingerprint fingerprint with
  | some _ => .ok rows
  | none => rows.add (.new id now name [] fingerprint)

def contactsRemove (texts : Texts) (fingerprint : List Char)
    (rows : ContactRows Id) : Except (ContactError Id) (ContactRows Id) :=
  let fingerprint := toUppercase texts.upper fingerprint
  match rows.findByFingerprint fingerprint with
  | some contact => rows.remove contact.id
  | none => .ok rows

/-! ## Runs of the front ends -/

/-- `refused` is a command that the database, or the parser of its arguments,
turns down. -/
inductive ContactCommand (Id : Type) where
  | apiAdd (id : Id) (now : ℕ) (fingerprint displayName : List Char)
  | apiRemove (id : Option Id)
  | add (id : Id) (now : ℕ) (fingerprint name : List Char)
  | remove (fingerprint : List Char)
  | refused

/-- The rows after a command: an error leaves them as they were. -/
def kept (rows : ContactRows Id) :
    Except (ContactError Id) (ContactRows Id) → ContactRows Id
  | .ok rows => rows
  | .error _ => rows

/-- The rows after a check for the fingerprint and an insertion. -/
def insertNew (rows : ContactRows Id) (contact : Contact Id) :
    ContactRows Id :=
  match rows.findByFingerprint contact.fingerprint with
  | some _ => rows
  | none => kept rows (rows.add contact)

def ContactCommand.run (texts : Texts) (rows : ContactRows Id) :
    ContactCommand Id → ContactRows Id
  | .apiAdd id now fingerprint displayName =>
      kept rows
        ((apiAddContact id now fingerprint displayName rows).map Prod.fst)
  | .apiRemove id => kept rows (apiRemoveContact id rows)
  | .add id now fingerprint name =>
      kept rows (contactsAdd texts id now fingerprint name rows)
  | .remove fingerprint => kept rows (contactsRemove texts fingerprint rows)
  | .refused => rows

def contactMachine (texts : Texts) :
    Machine (ContactRows Id) (ContactCommand Id) where
  start := fun rows => rows = []
  next := fun rows command => some (command.run texts rows)

/-- The contact a front end is to insert, with the fingerprint it stores. -/
def ContactCommand.offered? (texts : Texts) :
    ContactCommand Id → Option (Contact Id)
  | .apiAdd id now fingerprint displayName =>
      some (.new id now displayName [] fingerprint)
  | .add id now fingerprint name =>
      some (.new id now name [] (toUppercase texts.upper fingerprint))
  | _ => none

/-- The contact a command inserts into these rows. -/
def ContactCommand.inserted? (texts : Texts) (rows : ContactRows Id)
    (command : ContactCommand Id) : Option (Contact Id) :=
  (command.offered? texts).filter fun contact =>
    (rows.findByFingerprint contact.fingerprint).isNone &&
      decide (contact.id ∉ rows.map Contact.id)

section Steps

variable {texts : Texts} {rows : ContactRows Id} {command : ContactCommand Id}

theorem mem_of_remove {id : Id} {next : ContactRows Id}
    (hremove : rows.remove id = .ok next) :
    next = rows.filter fun contact => contact.id ≠ id := by
  unfold ContactRows.remove at hremove
  split at hremove
  · cases hremove
    rfl
  · contradiction

theorem sublist_kept_remove (id : Id) :
    (kept rows (rows.remove id)).Sublist rows := by
  cases hremove : rows.remove id with
  | error error => exact List.Sublist.refl rows
  | ok next =>
      rw [mem_of_remove hremove]
      exact List.filter_sublist

theorem run_of_offered {contact : Contact Id}
    (hoffered : command.offered? texts = some contact) :
    command.run texts rows = insertNew rows contact := by
  cases command with
  | apiAdd id now fingerprint displayName =>
      cases hoffered
      unfold ContactCommand.run apiAddContact insertNew
      dsimp only [Contact.new]
      cases rows.findByFingerprint fingerprint with
      | some found => rfl
      | none =>
          dsimp only
          cases ContactRows.add rows _ with
          | error error => rfl
          | ok next => rfl
  | add id now fingerprint name =>
      cases hoffered
      unfold ContactCommand.run contactsAdd insertNew
      dsimp only [Contact.new]
      cases rows.findByFingerprint (toUppercase texts.upper fingerprint) with
      | some found => rfl
      | none => rfl
  | apiRemove id => contradiction
  | remove fingerprint => contradiction
  | refused => contradiction

theorem inserted?_eq_some {contact : Contact Id} :
    command.inserted? texts rows = some contact ↔
      command.offered? texts = some contact ∧
        rows.findByFingerprint contact.fingerprint = none ∧
        contact.id ∉ rows.map Contact.id := by
  unfold ContactCommand.inserted?
  rw [Option.filter_eq_some_iff]
  simp

/-- A command inserts one contact or takes rows away. -/
theorem run_cases (texts : Texts) (rows : ContactRows Id)
    (command : ContactCommand Id) :
    (∃ contact, command.inserted? texts rows = some contact ∧
      command.run texts rows = rows ++ [contact]) ∨
    command.inserted? texts rows = none ∧
      (command.run texts rows).Sublist rows := by
  cases hoffered : command.offered? texts with
  | some contact =>
      have hrun : command.run texts rows = insertNew rows contact :=
        run_of_offered hoffered
      cases hinserted : command.inserted? texts rows with
      | some inserted =>
          obtain ⟨hsame, hfind, hid⟩ := inserted?_eq_some.mp hinserted
          rw [hoffered, Option.some.injEq] at hsame
          subst inserted
          refine Or.inl ⟨contact, rfl, ?_⟩
          rw [hrun]
          unfold insertNew ContactRows.add
          rw [hfind, if_neg hid]
          rfl
      | none =>
          refine Or.inr ⟨rfl, ?_⟩
          rw [hrun]
          unfold insertNew ContactRows.add
          cases hfind : rows.findByFingerprint contact.fingerprint with
          | some found => exact List.Sublist.refl rows
          | none =>
              by_cases hid : contact.id ∈ rows.map Contact.id
              · rw [if_pos hid]
                exact List.Sublist.refl rows
              · have hsome := inserted?_eq_some.mpr ⟨hoffered, hfind, hid⟩
                rw [hinserted] at hsome
                contradiction
  | none =>
      have hinserted : command.inserted? texts rows = none := by
        unfold ContactCommand.inserted?
        rw [hoffered]
        rfl
      refine Or.inr ⟨hinserted, ?_⟩
      cases command with
      | apiAdd id now fingerprint displayName => contradiction
      | add id now fingerprint name => contradiction
      | apiRemove id =>
          cases id with
          | none => exact List.Sublist.refl rows
          | some id => exact sublist_kept_remove id
      | remove fingerprint =>
          unfold ContactCommand.run contactsRemove
          dsimp only
          cases rows.findByFingerprint
              (toUppercase texts.upper fingerprint) with
          | none => exact List.Sublist.refl rows
          | some found => exact sublist_kept_remove found.id
      | refused => exact List.Sublist.refl rows

end Steps

/-! ## Contacts without a key -/

/-- The key check of `connect_to_contact`. -/
def Contact.expectedPubkey (contact : Contact Id) :
    Except ConnectError PublicKey :=
  match Hex.decode contact.publicKey with
  | none => .error (.connectionFailed "invalid contact public key")
  | some bytes =>
      if hlength : bytes.length = 32 then .ok ⟨bytes, hlength⟩
      else .error (.connectionFailed "public key wrong length")

/-- The infohash that `check_presence` looks up. -/
def Contact.presenceInfohash (sha1 : Bytes → Bytes) (contact : Contact Id) :
    Bytes :=
  sha1 ((Hex.decode contact.publicKey).getD [])

/-- The stored key is one whose fingerprint is the stored one. -/
def Contact.Usable (texts : Texts) (contact : Contact Id) : Prop :=
  ∃ key : PublicKey, contact.publicKey = Hex.encode key.val ∧
    toFingerprint texts key = contact.fingerprint

structure UsableAndDistinct (texts : Texts) (sha1 : Bytes → Bytes)
    (rows : ContactRows Id) : Prop where
  usable : ∀ contact ∈ rows, contact.Usable texts
  connects : ∀ contact ∈ rows, ∃ key, contact.expectedPubkey = .ok key
  separate : ∀ contact ∈ rows, ∀ other ∈ rows,
    contact.fingerprint ≠ other.fingerprint →
      contact.presenceInfohash sha1 ≠ other.presenceInfohash sha1

section Keys

variable {texts : Texts} {sha1 : Bytes → Bytes} {rows : ContactRows Id}

omit [DecidableEq Id] in
theorem not_usable_of_keyless {contact : Contact Id}
    (hkeyless : contact.publicKey = []) : ¬ contact.Usable texts := by
  rintro ⟨key, hkey, _⟩
  have hdecode := Hex.decode_encode key.val
  rw [← hkey, hkeyless] at hdecode
  have hnil : key.val = [] := (Option.some.inj hdecode).symm
  have hlength := key.property
  rw [hnil] at hlength
  contradiction

theorem publicKey_of_inserted {command : ContactCommand Id}
    {contact : Contact Id}
    (hinserted : command.inserted? texts rows = some contact) :
    contact.publicKey = [] := by
  obtain ⟨hoffered, _⟩ := inserted?_eq_some.mp hinserted
  cases command <;> cases hoffered <;> rfl

/-- No command ever stores a key. -/
theorem keyless_of_reachable
    (hreach : (contactMachine texts).Reachable rows) :
    ∀ contact ∈ rows, contact.publicKey = [] := by
  have hstart : ∀ rows₀ : ContactRows Id, (contactMachine texts).start rows₀ →
      ∀ contact ∈ rows₀, contact.publicKey = [] := by
    rintro rows₀ rfl contact hmem
    contradiction
  apply hreach.invariant hstart
  intro before command after hbefore hnext contact hmem
  cases hnext
  rcases run_cases texts before command with
    ⟨inserted, hinserted, hrun⟩ | ⟨_, hrun⟩
  · rw [hrun] at hmem
    rcases List.mem_append.mp hmem with hold | hnew
    · exact hbefore contact hold
    · rw [List.mem_singleton.mp hnew]
      exact publicKey_of_inserted hinserted
  · exact hbefore contact (hrun.subset hmem)

/-- A stored contact cannot be connected to, and its presence is that of every
other contact. -/
theorem keyless_contact_unusable
    (hreach : (contactMachine texts).Reachable rows) {contact : Contact Id}
    (hmem : contact ∈ rows) :
    contact.expectedPubkey =
        .error (.connectionFailed "public key wrong length") ∧
      contact.presenceInfohash sha1 = sha1 [] := by
  have hkeyless := keyless_of_reachable hreach contact hmem
  unfold Contact.expectedPubkey Contact.presenceInfohash
  rw [hkeyless]
  exact ⟨rfl, rfl⟩

theorem usableAndDistinct_iff
    (hreach : (contactMachine texts).Reachable rows) :
    UsableAndDistinct texts sha1 rows ↔ rows = [] := by
  constructor
  · intro husable
    apply List.eq_nil_iff_forall_not_mem.mpr
    intro contact hmem
    exact not_usable_of_keyless (keyless_of_reachable hreach contact hmem)
      (husable.usable contact hmem)
  · rintro rfl
    constructor <;> simp

end Keys

/-- The contacts of a run are usable and distinct in all its states exactly if
none is ever inserted. -/
theorem contacts_usable_iff (texts : Texts) (sha1 : Bytes → Bytes)
    {history : List (ContactRows Id × ContactCommand Id)}
    {rows : ContactRows Id}
    (hexec : (contactMachine texts).Execution history rows) :
    Machine.Throughout (UsableAndDistinct texts sha1) history rows ↔
      ∀ entry ∈ history, entry.2.inserted? texts entry.1 = none := by
  have hstart : ∀ rows₀ : ContactRows Id, (contactMachine texts).start rows₀ →
      UsableAndDistinct texts sha1 rows₀ := by
    intro rows₀ hrows
    exact (usableAndDistinct_iff (Machine.Reachable.of_start hrows)).mpr hrows
  have hstep : ∀ (before : ContactRows Id) (command : ContactCommand Id)
      (after : ContactRows Id), (contactMachine texts).Reachable before →
      UsableAndDistinct texts sha1 before →
      (contactMachine texts).next before command = some after →
      (UsableAndDistinct texts sha1 after ↔
        command.inserted? texts before = none) := by
    intro before command after hreach hbefore hnext
    have hempty := (usableAndDistinct_iff hreach).mp hbefore
    rw [usableAndDistinct_iff (hreach.step hnext)]
    cases hnext
    rcases run_cases texts before command with
      ⟨inserted, hinserted, hrun⟩ | ⟨hinserted, hrun⟩
    · rw [hrun, hinserted]
      simp
    · have hnil : command.run texts before = [] := by
        rw [hempty] at hrun ⊢
        exact List.sublist_nil.mp hrun
      exact iff_of_true hnil hinserted
  exact hexec.throughout_iff hstart hstep

end Store

/-! ## A contact of the app -/

/-- Texts of ASCII letters, and a word list that is never read. -/
def asciiTexts : Texts where
  word := fun _ => []
  upper := fun c => [c.toUpper]

def annFingerprint : List Char := "APPLE-0001-PEAR-0002".toList

def annContact : Contact ℕ := .new 1 0 "Ann".toList [] annFingerprint

def annAdded : ContactCommand ℕ := .apiAdd 1 0 annFingerprint "Ann".toList

theorem execution_annAdded :
    (contactMachine asciiTexts).Execution [(([] : ContactRows ℕ), annAdded)]
      [annContact] :=
  .step annAdded (.start rfl) rfl

theorem added_contact_unusable :
    ∃ (history : List (ContactRows ℕ × ContactCommand ℕ))
      (rows : ContactRows ℕ),
      (contactMachine asciiTexts).Execution history rows ∧
        rows ≠ [] ∧ ¬ UsableAndDistinct asciiTexts id rows := by
  refine ⟨_, _, execution_annAdded, List.cons_ne_nil _ _, ?_⟩
  intro husable
  have hreach := execution_annAdded.reachable
  have hempty := (usableAndDistinct_iff hreach).mp husable
  contradiction

def unknownRemoved : ContactCommand ℕ := .remove annFingerprint

/-- A command line that removes an unknown contact twice. -/
theorem contacts_usable_sample :
    Machine.Throughout (UsableAndDistinct asciiTexts id)
      [(([] : ContactRows ℕ), unknownRemoved),
        ([], unknownRemoved)] [] := by
  have hexec : (contactMachine asciiTexts).Execution
      [(([] : ContactRows ℕ), unknownRemoved),
        ([], unknownRemoved)] [] :=
    .step _ (.step _ (.start rfl) rfl) rfl
  apply (contacts_usable_iff asciiTexts id hexec).mpr
  intro entry hentry
  simp only [List.mem_cons, List.not_mem_nil, or_false, or_self] at hentry
  subst hentry
  rfl

/-! ## One contact for each fingerprint -/

section Fingerprints

variable {Id : Type} [DecidableEq Id] {texts : Texts} {rows : ContactRows Id}

/-- Fingerprints differ beyond the case of their letters, and the command line
removes a contact by its fingerprint in any case. -/
structure OnePerFingerprint (texts : Texts) (rows : ContactRows Id) : Prop where
  apart : rows.Pairwise fun contact other =>
    toUppercase texts.upper contact.fingerprint ≠
      toUppercase texts.upper other.fingerprint
  removable : ∀ contact ∈ rows, ∀ text,
    toUppercase texts.upper text =
        toUppercase texts.upper contact.fingerprint →
      contactsRemove texts text rows =
        .ok (rows.filter fun other => other.id ≠ contact.id)

/-- The ids of the rows are distinct, as the primary key makes them. -/
theorem ids_nodup_of_reachable
    (hreach : (contactMachine texts).Reachable rows) :
    (rows.map Contact.id).Nodup := by
  have hstart : ∀ rows₀ : ContactRows Id, (contactMachine texts).start rows₀ →
      (rows₀.map Contact.id).Nodup := by
    rintro rows₀ rfl
    exact List.nodup_nil
  apply hreach.invariant hstart
  intro before command after hbefore hnext
  cases hnext
  rcases run_cases texts before command with
    ⟨inserted, hinserted, hrun⟩ | ⟨_, hrun⟩
  · have hid := (inserted?_eq_some.mp hinserted).2.2
    rw [hrun, List.map_append]
    exact List.nodup_append.mpr ⟨hbefore, List.nodup_singleton _, by
      intro id hmem other hother heq
      rw [List.map_singleton, List.mem_singleton] at hother
      rw [heq, hother] at hmem
      exact hid hmem⟩
  · exact hbefore.sublist (hrun.map Contact.id)

omit [DecidableEq Id] in
theorem findByFingerprint_eq_some {fingerprint : List Char}
    {contact : Contact Id}
    (hfind : rows.findByFingerprint fingerprint = some contact) :
    contact ∈ rows ∧ contact.fingerprint = fingerprint := by
  unfold ContactRows.findByFingerprint at hfind
  have hfingerprint := List.find?_some hfind
  exact ⟨List.mem_of_find?_eq_some hfind, by simpa using hfingerprint⟩

omit [DecidableEq Id] in
theorem findByFingerprint_isSome {contact : Contact Id}
    (hmem : contact ∈ rows) :
    ∃ found, rows.findByFingerprint contact.fingerprint = some found := by
  apply Option.isSome_iff_exists.mp
  unfold ContactRows.findByFingerprint
  rw [List.find?_isSome]
  exact ⟨contact, hmem, by simp⟩

theorem remove_of_mem {contact : Contact Id} (hmem : contact ∈ rows) :
    rows.remove contact.id =
      .ok (rows.filter fun other => other.id ≠ contact.id) :=
  if_pos (List.mem_map_of_mem hmem)

/-- The two parts come to this: every stored fingerprint is its own upper-case
form, and no two are equal. -/
theorem onePerFingerprint_iff (hids : (rows.map Contact.id).Nodup) :
    OnePerFingerprint texts rows ↔
      (∀ contact ∈ rows,
        toUppercase texts.upper contact.fingerprint = contact.fingerprint) ∧
      (rows.map Contact.fingerprint).Nodup := by
  constructor
  · intro hone
    have hupper : ∀ contact ∈ rows,
        toUppercase texts.upper contact.fingerprint =
          contact.fingerprint := by
      intro contact hmem
      have hremove := hone.removable contact hmem contact.fingerprint rfl
      have hgone : contact ∉
          rows.filter fun other => other.id ≠ contact.id := by
        simp
      unfold contactsRemove at hremove
      dsimp only at hremove
      cases hfind : rows.findByFingerprint
          (toUppercase texts.upper contact.fingerprint) with
      | none =>
          rw [hfind, Except.ok.injEq] at hremove
          rw [← hremove] at hgone
          contradiction
      | some found =>
          obtain ⟨hfound, hfingerprint⟩ := findByFingerprint_eq_some hfind
          rw [hfind] at hremove
          dsimp only at hremove
          rw [remove_of_mem hfound, Except.ok.injEq] at hremove
          rw [← hremove] at hgone
          have hid : contact.id = found.id := by
            by_contra hne
            exact hgone (List.mem_filter.mpr ⟨hmem, by simpa using hne⟩)
          have hsame := List.inj_on_of_nodup_map hids hmem hfound hid
          rw [hsame] at hfingerprint ⊢
          exact hfingerprint.symm
    refine ⟨hupper, ?_⟩
    unfold List.Nodup
    rw [List.pairwise_map]
    apply hone.apart.imp_of_mem
    intro contact other hmem hother hne
    rwa [hupper contact hmem, hupper other hother] at hne
  · rintro ⟨hupper, hnodup⟩
    constructor
    · have hpairs := List.pairwise_map.mp hnodup
      apply hpairs.imp_of_mem
      intro contact other hmem hother hne
      rwa [hupper contact hmem, hupper other hother]
    · intro contact hmem text htext
      rw [hupper contact hmem] at htext
      obtain ⟨found, hfind⟩ := findByFingerprint_isSome hmem
      obtain ⟨hfound, hfingerprint⟩ := findByFingerprint_eq_some hfind
      have hsame := List.inj_on_of_nodup_map hnodup hfound hmem hfingerprint
      unfold contactsRemove
      dsimp only
      rw [htext, hfind, hsame]
      exact remove_of_mem hmem

end Fingerprints

/-- The contacts of a run stay apart and removable exactly if every fingerprint
that is inserted is its own upper-case form. -/
theorem one_contact_per_fingerprint_iff {Id : Type} [DecidableEq Id]
    (texts : Texts) {history : List (ContactRows Id × ContactCommand Id)}
    {rows : ContactRows Id}
    (hexec : (contactMachine texts).Execution history rows) :
    Machine.Throughout (OnePerFingerprint texts) history rows ↔
      ∀ entry ∈ history, ∀ contact,
        entry.2.inserted? texts entry.1 = some contact →
          toUppercase texts.upper contact.fingerprint =
            contact.fingerprint := by
  have hstart : ∀ rows₀ : ContactRows Id, (contactMachine texts).start rows₀ →
      OnePerFingerprint texts rows₀ := by
    rintro rows₀ rfl
    constructor
    · exact List.Pairwise.nil
    · simp
  have hstep : ∀ (before : ContactRows Id) (command : ContactCommand Id)
      (after : ContactRows Id), (contactMachine texts).Reachable before →
      OnePerFingerprint texts before →
      (contactMachine texts).next before command = some after →
      (OnePerFingerprint texts after ↔
        ∀ contact, command.inserted? texts before = some contact →
          toUppercase texts.upper contact.fingerprint =
            contact.fingerprint) := by
    intro before command after hreach hbefore hnext
    have hids := ids_nodup_of_reachable (hreach.step hnext)
    obtain ⟨hupper, hnodup⟩ :=
      (onePerFingerprint_iff (ids_nodup_of_reachable hreach)).mp hbefore
    rw [onePerFingerprint_iff hids]
    cases hnext
    rcases run_cases texts before command with
      ⟨inserted, hinserted, hrun⟩ | ⟨hinserted, hrun⟩
    · have hfind := (inserted?_eq_some.mp hinserted).2.1
      have hnew : inserted.fingerprint ∉ before.map Contact.fingerprint := by
        intro hmem
        obtain ⟨contact, hcontact, hsame⟩ := List.mem_map.mp hmem
        obtain ⟨found, hfound⟩ := findByFingerprint_isSome hcontact
        rw [hsame, hfind] at hfound
        contradiction
      rw [hrun, hinserted]
      constructor
      · rintro ⟨hall, _⟩ contact hcontact
        cases hcontact
        exact hall inserted (List.mem_append_right _ List.mem_cons_self)
      · intro hfixed
        constructor
        · intro contact hmem
          rcases List.mem_append.mp hmem with hold | hlast
          · exact hupper contact hold
          · rw [List.mem_singleton.mp hlast]
            exact hfixed inserted rfl
        · rw [List.map_append, List.map_singleton]
          exact List.nodup_append.mpr ⟨hnodup, List.nodup_singleton _, by
            intro fingerprint hmem other hother heq
            rw [List.mem_singleton.mp hother] at heq
            rw [heq] at hmem
            exact hnew hmem⟩
    · rw [hinserted]
      refine iff_of_true ⟨?_, ?_⟩ ?_
      · exact fun contact hmem => hupper contact (hrun.subset hmem)
      · exact hnodup.sublist (hrun.map Contact.fingerprint)
      · intro contact hcontact
        contradiction
  exact hexec.throughout_iff hstart hstep

/-! ## One fingerprint in two letter cases -/

def lowerFingerprint : List Char := "apple-0001-pear-0002".toList

def lowerAdded : ContactCommand ℕ := .apiAdd 1 0 lowerFingerprint "Ann".toList

def upperAdded : ContactCommand ℕ := .add 2 0 lowerFingerprint "Ann".toList

def bothContacts : ContactRows ℕ :=
  [.new 1 0 "Ann".toList [] lowerFingerprint,
    .new 2 0 "Ann".toList [] annFingerprint]

theorem execution_bothContacts :
    (contactMachine asciiTexts).Execution
      [([.new 1 0 "Ann".toList [] lowerFingerprint], upperAdded),
        ([], lowerAdded)] bothContacts :=
  .step upperAdded (.step lowerAdded (.start rfl) rfl) (by decide +kernel)

theorem same_fingerprint_twice :
    ∃ (history : List (ContactRows ℕ × ContactCommand ℕ))
      (rows : ContactRows ℕ),
      (contactMachine asciiTexts).Execution history rows ∧
        ¬ OnePerFingerprint asciiTexts rows := by
  refine ⟨_, _, execution_bothContacts, ?_⟩
  intro hone
  have hpairs : ¬ bothContacts.Pairwise fun contact other =>
      toUppercase asciiTexts.upper contact.fingerprint ≠
        toUppercase asciiTexts.upper other.fingerprint := by
    decide +kernel
  exact hpairs hone.apart

def bobContact : Contact ℕ :=
  .new 2 0 "Bob".toList [] "KIWI-0003-PLUM-0004".toList

def bobAdded : ContactCommand ℕ :=
  .add 2 0 "kiwi-0003-plum-0004".toList "Bob".toList

/-- The app stores one contact by its upper-case fingerprint, and the command
line another, whose fingerprint it is given in lower case. -/
theorem one_contact_per_fingerprint_sample :
    Machine.Throughout (OnePerFingerprint asciiTexts)
      [([annContact], bobAdded), (([] : ContactRows ℕ), annAdded)]
      [annContact, bobContact] := by
  have hexec : (contactMachine asciiTexts).Execution
      [([annContact], bobAdded), (([] : ContactRows ℕ), annAdded)]
      [annContact, bobContact] :=
    .step bobAdded execution_annAdded (by decide +kernel)
  have hann : annAdded.inserted? asciiTexts [] = some annContact := by
    decide +kernel
  have hbob : bobAdded.inserted? asciiTexts [annContact] = some bobContact := by
    decide +kernel
  apply (one_contact_per_fingerprint_iff asciiTexts hexec).mpr
  intro entry hentry contact hinserted
  simp only [List.mem_cons, List.not_mem_nil, or_false] at hentry
  rcases hentry with rfl | rfl
  · rw [hbob] at hinserted
    cases hinserted
    decide +kernel
  · rw [hann] at hinserted
    cases hinserted
    decide +kernel

end P2pShare
