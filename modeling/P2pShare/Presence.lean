import P2pShare.Contacts
import Mathlib.Logic.Function.Basic

/-!
# Presence

`connect_to_contact` and `check_presence` of any number of users over one DHT.
The DHT keeps every announcement, here with the user who made it, and a lookup
returns addresses that were announced at its infohash.  The two functions take
one step for each await.
-/

namespace P2pShare

open ByteStream TransitionMachine

/-- `sha1` has no collision on the keys of the users. -/
structure PresenceSetting (User : Type) where
  key : User → PublicKey
  sha1 : Bytes → Bytes
  texts : Texts
  parseAddr : List Char → Option SocketAddr
  sha1_injective : ∀ user other,
    sha1 (key user).val = sha1 (key other).val → user = other

/-- A contact that is one of the users. -/
structure KnownContact {User : Type} (setting : PresenceSetting User)
    (Id : Type) where
  user : User
  contact : Contact Id
  publicKey_eq : contact.publicKey = Hex.encode (setting.key user).val

/-- One record of the DHT, and who made it. -/
structure DhtRecord (User : Type) where
  announcer : User
  infohash : Bytes
  addr : SocketAddr

def announcedAt {User : Type} (records : List (DhtRecord User))
    (infohash : Bytes) : List SocketAddr :=
  (records.filter fun record => record.infohash = infohash).map DhtRecord.addr

theorem mem_announcedAt {User : Type} {records : List (DhtRecord User)}
    {infohash : Bytes} {addr : SocketAddr} :
    addr ∈ announcedAt records infohash ↔
      ∃ record ∈ records, record.infohash = infohash ∧ record.addr = addr := by
  simp [announcedAt, and_assoc]

/-! ## `connect_to_contact` -/

section Calls

variable {User : Type} {setting : PresenceSetting User} {Id : Type}

/-- Where a call stands.  `contact` is the argument, and `peerAddr` the address
it was resolved to. -/
inductive ContactCall (setting : PresenceSetting User) (Id : Type) where
  | lookingUp (caller : User) (contact : KnownContact setting Id)
  | binding (caller : User) (contact : KnownContact setting Id)
      (peerAddr : SocketAddr)
  | mapping (caller : User) (contact : KnownContact setting Id)
      (peerAddr : SocketAddr) (localPort : ℕ)
  | announcing (caller : User) (contact : KnownContact setting Id)
      (peerAddr : SocketAddr) (announcePort : ℕ)
  | connecting (caller : User) (contact : KnownContact setting Id)
      (peerAddr : SocketAddr)
  | returned (result : Except ConnectError PublicKey)

/-- What an await of the call gives it.  `announced` carries the address under
which the DHT sees the caller, if the announcement reaches it; `ended` the key
of the peer that the direct or relay handshake found, or the error before it. -/
inductive ContactCallEvent where
  | lookedUp (found : List SocketAddr)
  | deadline
  | bound (result : Except String ℕ)
  | mapped (external : Option SocketAddr)
  | announced (ip : Option IpAddr)
  | ended (outcome : Except ConnectError PublicKey) (relay : Bool)

namespace ContactCall

def start (caller : User) (contact : KnownContact setting Id) :
    ContactCall setting Id :=
  match contact.contact.expectedPubkey with
  | .error error => returned (.error error)
  | .ok _ =>
      match contact.contact.lastKnownAddr.bind setting.parseAddr with
      | some addr => binding caller contact addr
      | none =>
          match Hex.decode contact.contact.publicKey with
          | none =>
              returned (.error (.connectionFailed "bad public key hex"))
          | some _ => lookingUp caller contact

/-- The check of the key that the handshake found. -/
def verified (contact : KnownContact setting Id) (relay : Bool)
    (remotePubkey : PublicKey) : Except ConnectError PublicKey :=
  match contact.contact.expectedPubkey with
  | .error error => .error error
  | .ok expected =>
      if remotePubkey = expected then .ok remotePubkey
      else if relay then
        .error (.connectionFailed "identity mismatch on relay")
      else
        .error (.connectionFailed
          ("identity mismatch: expected " ++
            String.ofList contact.contact.fingerprint ++ " but got " ++
            String.ofList (toFingerprint setting.texts remotePubkey)))

/-- The infohash and the address that a step puts into the DHT. -/
abbrev Put := Option (Bytes × SocketAddr)

def step : ContactCall setting Id → ContactCallEvent →
    Option (ContactCall setting Id × Put)
  | lookingUp caller contact, .lookedUp found =>
      match found with
      | [] => some (lookingUp caller contact, none)
      | addr :: _ => some (binding caller contact addr, none)
  | lookingUp _ _, .deadline => some (returned (.error .peerNotFound), none)
  | binding caller contact peerAddr, .bound result =>
      match result with
      | .error text => some (returned (.error (.io text)), none)
      | .ok localPort => some (mapping caller contact peerAddr localPort, none)
  | mapping caller contact peerAddr localPort, .mapped external =>
      match external with
      | some ext => some (announcing caller contact peerAddr ext.port, none)
      | none => some (announcing caller contact peerAddr localPort, none)
  | announcing caller contact peerAddr announcePort, .announced ip =>
      some (connecting caller contact peerAddr,
        ip.map fun ip =>
          (contact.contact.presenceInfohash setting.sha1,
            ⟨ip, announcePort⟩))
  | connecting _ contact _, .ended outcome relay =>
      some (returned (outcome.bind (verified contact relay)), none)
  | _, _ => none

/-- Who made the call, while it runs. -/
def caller? : ContactCall setting Id → Option User
  | lookingUp caller _ | binding caller _ _ | mapping caller _ _ _
  | announcing caller _ _ _ | connecting caller _ _ => some caller
  | returned _ => none

/-- A lookup of the call returns what was announced. -/
def answered (records : List (DhtRecord User)) :
    ContactCall setting Id → ContactCallEvent → Bool
  | lookingUp _ contact, .lookedUp found =>
      found.all fun addr => (announcedAt records
        (contact.contact.presenceInfohash setting.sha1)).contains addr
  | _, _ => true

end ContactCall

/-! ## `check_presence` -/

inductive PresenceStatus where
  | online (addr : SocketAddr)
  | offline
  deriving DecidableEq

def PresenceStatus.ofPeers : List SocketAddr → PresenceStatus
  | addr :: _ => online addr
  | [] => offline

/-- `statuses` is the map from the ids of the contacts. -/
structure PresenceCheck (setting : PresenceSetting User) (Id : Type) where
  contacts : List (KnownContact setting Id)
  statuses : List (KnownContact setting Id × PresenceStatus)

namespace PresenceCheck

variable [DecidableEq Id]

/-- `statuses.insert(contact.id, status)`. -/
def insert (statuses : List (KnownContact setting Id × PresenceStatus))
    (contact : KnownContact setting Id) (status : PresenceStatus) :
    List (KnownContact setting Id × PresenceStatus) :=
  (statuses.filter fun entry => entry.1.contact.id ≠ contact.contact.id) ++
    [(contact, status)]

/-- The lookup of the next contact has found these peers. -/
def step (check : PresenceCheck setting Id) (peers : List SocketAddr) :
    Option (PresenceCheck setting Id) :=
  match check.contacts with
  | [] => none
  | contact :: rest =>
      some ⟨rest, insert check.statuses contact (.ofPeers peers)⟩

end PresenceCheck

/-! ## All users together -/

/-- `reports` holds what the calls of `check_presence` have returned. -/
structure PresenceState (setting : PresenceSetting User) (Id : Type) where
  records : List (DhtRecord User)
  calls : ℕ → Option (ContactCall setting Id)
  checks : ℕ → Option (PresenceCheck setting Id)
  reports : List (KnownContact setting Id × PresenceStatus)

inductive PresenceEvent (setting : PresenceSetting User) (Id : Type) where
  | connect (call : ℕ) (caller : User) (contact : KnownContact setting Id)
  | goesOn (call : ℕ) (event : ContactCallEvent)
  | check (number : ℕ) (contacts : List (KnownContact setting Id))
  | lookUp (number : ℕ) (peers : List SocketAddr)
  | report (number : ℕ)

namespace PresenceState

variable [DecidableEq Id]

/-- The record that a step of this call makes. -/
def recorded (call : ContactCall setting Id) :
    ContactCall.Put → List (DhtRecord User)
  | none => []
  | some (infohash, addr) =>
      call.caller?.toList.map fun caller => ⟨caller, infohash, addr⟩

def next (s : PresenceState setting Id) :
    PresenceEvent setting Id → Option (PresenceState setting Id)
  | .connect number caller contact =>
      match s.calls number with
      | some _ => none
      | none =>
          some { s with
            calls := Function.update s.calls number
              (some (.start caller contact)) }
  | .goesOn number event =>
      (s.calls number).bind fun call =>
        if call.answered s.records event then
          (call.step event).map fun (next, put) =>
            { s with
              calls := Function.update s.calls number (some next)
              records := s.records ++ recorded call put }
        else none
  | .check number contacts =>
      match s.checks number with
      | some _ => none
      | none =>
          some { s with
            checks := Function.update s.checks number (some ⟨contacts, []⟩) }
  | .lookUp number peers =>
      (s.checks number).bind fun check =>
        match check.contacts with
        | [] => none
        | contact :: _ =>
            if peers.all fun addr => (announcedAt s.records
                (contact.contact.presenceInfohash setting.sha1)).contains
                  addr then
              (check.step peers).map fun next =>
                { s with
                  checks := Function.update s.checks number (some next) }
            else none
  | .report number =>
      (s.checks number).bind fun check =>
        match check.contacts with
        | [] =>
            some { s with
              checks := Function.update s.checks number none
              reports := s.reports ++ check.statuses }
        | _ :: _ => none

structure Starts (s : PresenceState setting Id) : Prop where
  records : s.records = []
  calls : ∀ number, s.calls number = none
  checks : ∀ number, s.checks number = none
  reports : s.reports = []

variable (setting Id) in
def machine : Machine (PresenceState setting Id) (PresenceEvent setting Id) where
  start := Starts
  next := next

end PresenceState

/-! ## Who announces what -/

/-- The user has announced this address under the hash of its own key. -/
def SelfAnnounced (setting : PresenceSetting User)
    (records : List (DhtRecord User)) (user : User) (addr : SocketAddr) :
    Prop :=
  ∃ record ∈ records, record.announcer = user ∧
    record.infohash = setting.sha1 (setting.key user).val ∧
    record.addr = addr

/-- A report, one that is being made, and one that could be made now: each user
it calls online has announced the address itself. -/
structure Truthful (s : PresenceState setting Id) : Prop where
  answers : ∀ user, ∀ addr ∈ announcedAt s.records
    (setting.sha1 (setting.key user).val),
      SelfAnnounced setting s.records user addr
  noted : ∀ number check, s.checks number = some check →
    ∀ entry ∈ check.statuses, ∀ addr, entry.2 = .online addr →
      SelfAnnounced setting s.records entry.1.user addr
  reported : ∀ entry ∈ s.reports, ∀ addr, entry.2 = .online addr →
    SelfAnnounced setting s.records entry.1.user addr

/-- A call that announces its caller for a contact is made by that contact, or
the contact has announced the address itself before. -/
def AnnouncesItself (s : PresenceState setting Id) :
    PresenceEvent setting Id → Prop
  | .goesOn number (.announced (some ip)) =>
      ∀ caller contact peerAddr announcePort,
        s.calls number =
            some (.announcing caller contact peerAddr announcePort) →
          caller = contact.user ∨
            SelfAnnounced setting s.records contact.user ⟨ip, announcePort⟩
  | _ => True

theorem SelfAnnounced.mono {records more : List (DhtRecord User)} {user : User}
    {addr : SocketAddr} (hself : SelfAnnounced setting records user addr) :
    SelfAnnounced setting (records ++ more) user addr := by
  obtain ⟨record, hmem, hfacts⟩ := hself
  exact ⟨record, List.mem_append_left more hmem, hfacts⟩

theorem KnownContact.presenceInfohash_eq (contact : KnownContact setting Id) :
    contact.contact.presenceInfohash setting.sha1 =
      setting.sha1 (setting.key contact.user).val := by
  unfold Contact.presenceInfohash
  rw [contact.publicKey_eq, Hex.decode_encode]
  rfl

/-- Only the step after the STUN query announces, and it announces the caller
under the contact's key. -/
theorem recorded_cases {call next : ContactCall setting Id}
    {event : ContactCallEvent} {put : ContactCall.Put}
    (hstep : call.step event = some (next, put)) :
    PresenceState.recorded call put = [] ∨
      ∃ caller contact peerAddr announcePort ip,
        call = .announcing caller contact peerAddr announcePort ∧
        event = .announced (some ip) ∧
        PresenceState.recorded call put =
          [⟨caller, setting.sha1 (setting.key contact.user).val,
            ⟨ip, announcePort⟩⟩] := by
  unfold ContactCall.step at hstep
  split at hstep
  next caller contact found =>
    split at hstep
    · cases hstep
      exact Or.inl rfl
    · cases hstep
      exact Or.inl rfl
  next =>
    cases hstep
    exact Or.inl rfl
  next caller contact peerAddr result =>
    split at hstep
    · cases hstep
      exact Or.inl rfl
    · cases hstep
      exact Or.inl rfl
  next caller contact peerAddr localPort external =>
    split at hstep
    · cases hstep
      exact Or.inl rfl
    · cases hstep
      exact Or.inl rfl
  next caller contact peerAddr announcePort ip =>
    cases hstep
    cases ip with
    | none => exact Or.inl rfl
    | some ip =>
        refine Or.inr ⟨caller, contact, peerAddr, announcePort, ip, rfl, rfl, ?_⟩
        rw [← contact.presenceInfohash_eq]
        rfl
  next =>
    cases hstep
    exact Or.inl rfl
  next => contradiction

section Steps

variable [DecidableEq Id] {s t : PresenceState setting Id}

omit [DecidableEq Id] in
/-- A step that makes no record, leaves the checks and changes no report. -/
theorem Truthful.of_same (htruthful : Truthful s)
    (hrecords : t.records = s.records) (hchecks : t.checks = s.checks)
    (hreports : t.reports = s.reports) : Truthful t := by
  constructor
  · rw [hrecords]
    exact htruthful.answers
  · rw [hrecords, hchecks]
    exact htruthful.noted
  · rw [hrecords, hreports]
    exact htruthful.reported

omit [DecidableEq Id] in
/-- A step of a call changes the truth only by the record it makes. -/
theorem truthful_goesOn {number : ℕ} {call next : ContactCall setting Id}
    {event : ContactCallEvent} {put : ContactCall.Put} (htruthful : Truthful s)
    (hcall : s.calls number = some call)
    (hstep : call.step event = some (next, put)) :
    Truthful { s with
        calls := Function.update s.calls number (some next)
        records := s.records ++ PresenceState.recorded call put } ↔
      AnnouncesItself s (.goesOn number event) := by
  rcases recorded_cases hstep with
    hnone | ⟨caller, contact, peerAddr, announcePort, ip, rfl, rfl, hrecord⟩
  · have hkeeps : AnnouncesItself s
        (.goesOn number event : PresenceEvent setting Id) := by
      cases event with
      | announced ip =>
          cases ip with
          | none => trivial
          | some ip =>
              intro caller contact peerAddr announcePort hannouncing
              rw [hcall, Option.some.injEq] at hannouncing
              subst hannouncing
              cases hstep
              contradiction
      | _ => trivial
    refine iff_of_true ?_ hkeeps
    apply htruthful.of_same
    · rw [hnone, List.append_nil]
    · rfl
    · rfl
  · rw [hrecord]
    constructor
    · intro hafter caller' contact' peerAddr' announcePort' hannouncing
      rw [hcall, Option.some.injEq] at hannouncing
      cases hannouncing
      have hnew : (⟨ip, announcePort⟩ : SocketAddr) ∈ announcedAt
          (s.records ++ [⟨caller, setting.sha1 (setting.key contact.user).val,
            ⟨ip, announcePort⟩⟩])
          (setting.sha1 (setting.key contact.user).val) :=
        mem_announcedAt.mpr
          ⟨_, List.mem_append_right _ List.mem_cons_self, rfl, rfl⟩
      obtain ⟨record, hmem, hannouncer, hinfohash, haddr⟩ :=
        hafter.answers contact.user _ hnew
      rcases List.mem_append.mp hmem with hold | hlast
      · exact Or.inr ⟨record, hold, hannouncer, hinfohash, haddr⟩
      · rw [List.mem_singleton.mp hlast] at hannouncer
        exact Or.inl hannouncer
    · intro hguard
      have hself := hguard caller contact peerAddr announcePort hcall
      constructor
      · intro user addr haddr
        obtain ⟨record, hmem, hinfohash, rfl⟩ := mem_announcedAt.mp haddr
        rcases List.mem_append.mp hmem with hold | hlast
        · exact (htruthful.answers user record.addr (mem_announcedAt.mpr
            ⟨record, hold, hinfohash, rfl⟩)).mono
        · rw [List.mem_singleton.mp hlast] at hinfohash ⊢
          have huser := setting.sha1_injective contact.user user hinfohash
          subst huser
          rcases hself with rfl | hself
          · exact ⟨_, List.mem_append_right _ List.mem_cons_self, rfl, rfl, rfl⟩
          · exact hself.mono
      · intro number check hcheck entry hentry addr hstatus
        exact (htruthful.noted number check hcheck entry hentry addr
          hstatus).mono
      · intro entry hentry addr hstatus
        exact (htruthful.reported entry hentry addr hstatus).mono

/-- A lookup of a check notes what is truly announced. -/
theorem noted_step {number : ℕ} {check next : PresenceCheck setting Id}
    {contact : KnownContact setting Id}
    {rest : List (KnownContact setting Id)} {peers : List SocketAddr}
    (htruthful : Truthful s) (hcheck : s.checks number = some check)
    (hcontacts : check.contacts = contact :: rest)
    (hpeers : (peers.all fun addr => (announcedAt s.records
      (contact.contact.presenceInfohash setting.sha1)).contains addr) = true)
    (hstep : check.step peers = some next) :
    ∀ entry ∈ next.statuses, ∀ addr, entry.2 = .online addr →
      SelfAnnounced setting s.records entry.1.user addr := by
  unfold PresenceCheck.step at hstep
  rw [hcontacts] at hstep
  cases hstep
  intro entry hentry addr hstatus
  rcases List.mem_append.mp hentry with hold | hnew
  · exact htruthful.noted number check hcheck entry
      (List.mem_filter.mp hold).1 addr hstatus
  · rw [List.mem_singleton.mp hnew] at hstatus ⊢
    cases peers with
    | nil => contradiction
    | cons first others =>
        cases hstatus
        have hfirst := List.all_eq_true.mp hpeers addr List.mem_cons_self
        rw [List.contains_iff_mem, contact.presenceInfohash_eq] at hfirst
        exact htruthful.answers contact.user addr hfirst

omit [DecidableEq Id] in
theorem truthful_of_update {number : ℕ}
    {check? : Option (PresenceCheck setting Id)}
    {reports : List (KnownContact setting Id × PresenceStatus)}
    (htruthful : Truthful s)
    (hcheck : ∀ check, check? = some check → ∀ entry ∈ check.statuses,
      ∀ addr, entry.2 = .online addr →
        SelfAnnounced setting s.records entry.1.user addr)
    (hreports : ∀ entry ∈ reports, ∀ addr, entry.2 = .online addr →
      SelfAnnounced setting s.records entry.1.user addr) :
    Truthful { s with
      checks := Function.update s.checks number check?
      reports := reports } := by
  constructor
  · exact htruthful.answers
  · intro other check hother
    dsimp only at hother
    by_cases hsame : other = number
    · rw [hsame, Function.update_self] at hother
      exact hcheck check hother
    · rw [Function.update_of_ne hsame] at hother
      exact htruthful.noted other check hother
  · exact hreports

theorem truthful_next {event : PresenceEvent setting Id}
    (htruthful : Truthful s) (hnext : s.next event = some t) :
    Truthful t ↔ AnnouncesItself s event := by
  cases event with
  | connect number caller contact =>
      refine iff_of_true ?_ trivial
      simp only [PresenceState.next] at hnext
      split at hnext
      · contradiction
      · cases hnext
        exact htruthful.of_same rfl rfl rfl
  | goesOn number event =>
      obtain ⟨call, hcall, hresult⟩ := Option.bind_eq_some_iff.mp hnext
      split at hresult
      · obtain ⟨⟨next, put⟩, hstep, rfl⟩ := Option.map_eq_some_iff.mp hresult
        exact truthful_goesOn htruthful hcall hstep
      · contradiction
  | check number contacts =>
      refine iff_of_true ?_ trivial
      simp only [PresenceState.next] at hnext
      split at hnext
      · contradiction
      · cases hnext
        apply truthful_of_update htruthful
        · intro check hcheck entry hentry
          cases hcheck
          contradiction
        · exact htruthful.reported
  | lookUp number peers =>
      refine iff_of_true ?_ trivial
      obtain ⟨check, hcheck, hresult⟩ := Option.bind_eq_some_iff.mp hnext
      split at hresult
      next => contradiction
      next contact rest hcontacts =>
        split at hresult
        next hpeers =>
          obtain ⟨next, hstep, rfl⟩ := Option.map_eq_some_iff.mp hresult
          have hnoted := noted_step htruthful hcheck hcontacts hpeers hstep
          apply truthful_of_update htruthful
          · intro check' hcheck'
            cases hcheck'
            exact hnoted
          · exact htruthful.reported
        next => contradiction
  | report number =>
      refine iff_of_true ?_ trivial
      obtain ⟨check, hcheck, hresult⟩ := Option.bind_eq_some_iff.mp hnext
      split at hresult
      · cases hresult
        apply truthful_of_update htruthful
        · intro check' hcheck'
          contradiction
        · intro entry hentry
          rcases List.mem_append.mp hentry with hold | hnew
          · exact htruthful.reported entry hold
          · exact htruthful.noted number check hcheck entry hnew
      · contradiction

end Steps

end Calls

/-- Presence is truthful in all states of a run exactly if every call announces
its own user. -/
theorem presence_truthful_iff {User Id : Type} [DecidableEq Id]
    (setting : PresenceSetting User)
    {history : List (PresenceState setting Id × PresenceEvent setting Id)}
    {s : PresenceState setting Id}
    (hexec : (PresenceState.machine setting Id).Execution history s) :
    Machine.Throughout Truthful history s ↔
      ∀ entry ∈ history, AnnouncesItself entry.1 entry.2 := by
  have hstart : ∀ s₀, (PresenceState.machine setting Id).start s₀ →
      Truthful s₀ := by
    intro s₀ hstarts
    constructor
    · intro user addr haddr
      rw [hstarts.records] at haddr
      contradiction
    · intro number check hcheck
      rw [hstarts.checks number] at hcheck
      contradiction
    · intro entry hentry
      rw [hstarts.reports] at hentry
      contradiction
  have hstep : ∀ u event v, (PresenceState.machine setting Id).Reachable u →
      Truthful u → (PresenceState.machine setting Id).next u event = some v →
      (Truthful v ↔ AnnouncesItself u event) :=
    fun _ _ _ _ htruthful hnext => truthful_next htruthful hnext
  exact hexec.throughout_iff hstart hstep

/-! ## Two users

The key of each is a repeated byte, and `sha1` keeps the first 20 bytes. -/

def keyOf (user : Bool) : PublicKey :=
  ⟨List.replicate 32 (if user then 1 else 2), List.length_replicate⟩

theorem keyOf_take_injective (user other : Bool)
    (hsame : (keyOf user).val.take 20 = (keyOf other).val.take 20) :
    user = other := by
  cases user <;> cases other <;> first | rfl | exact absurd hsame (by decide)

def twoUsers : PresenceSetting Bool where
  key := keyOf
  sha1 := List.take 20
  texts := asciiTexts
  parseAddr := fun _ => some ⟨.v4 192 0 2 1, 7000⟩
  sha1_injective := keyOf_take_injective

/-- The contact that stands for the user `true`, with a cached address. -/
def trueContact : KnownContact twoUsers ℕ where
  user := true
  contact :=
    { Contact.new 1 0 "Ann".toList (Hex.encode (keyOf true).val) [] with
      lastKnownAddr := some [] }
  publicKey_eq := rfl

def offlineState : PresenceState twoUsers ℕ where
  records := []
  calls := fun _ => none
  checks := fun _ => none
  reports := []

theorem starts_offlineState : offlineState.Starts where
  records := rfl
  calls := fun _ => rfl
  checks := fun _ => rfl
  reports := rfl

def strangerIp : IpAddr := .v4 198 51 100 7

/-- The user `false` calls `true` and is announced under the hash of the key of
`true`; a check then finds `true` online at the address of `false`. -/
def strangerRun : Option (PresenceState twoUsers ℕ) :=
  (PresenceState.machine twoUsers ℕ).runFrom offlineState
    [.connect 0 false trueContact, .goesOn 0 (.bound (.ok 5000)),
      .goesOn 0 (.mapped none), .goesOn 0 (.announced (some strangerIp)),
      .check 0 [trueContact], .lookUp 0 [⟨strangerIp, 5000⟩], .report 0]

theorem caller_reported_as_contact :
    ∃ (history : List (PresenceState twoUsers ℕ × PresenceEvent twoUsers ℕ))
      (s : PresenceState twoUsers ℕ),
      (PresenceState.machine twoUsers ℕ).Execution history s ∧
        ∃ entry ∈ s.reports, ∃ addr, entry.2 = .online addr ∧
          ¬ SelfAnnounced twoUsers s.records entry.1.user addr := by
  have hdata : strangerRun.map (fun s =>
      (s.reports.map fun entry => (entry.1.user, entry.2),
        s.records.map DhtRecord.announcer)) =
      some ([(true, .online ⟨strangerIp, 5000⟩)], [false]) := by
    decide +kernel
  obtain ⟨s, hrun, hs⟩ := Option.map_eq_some_iff.mp hdata
  rw [Prod.mk.injEq] at hs
  obtain ⟨hreports, hrecords⟩ := hs
  have hstart : (PresenceState.machine twoUsers ℕ).start offlineState :=
    starts_offlineState
  obtain ⟨history, hexec⟩ :=
    (Machine.Reachable.of_runFrom hstart hrun).execution
  have hmem : (true, PresenceStatus.online ⟨strangerIp, 5000⟩) ∈
      s.reports.map fun entry => (entry.1.user, entry.2) := by
    rw [hreports]
    exact List.mem_cons_self
  obtain ⟨entry, hentry, hsame⟩ := List.mem_map.mp hmem
  rw [Prod.mk.injEq] at hsame
  refine ⟨history, s, hexec, entry, hentry, _, hsame.2, ?_⟩
  rintro ⟨record, hrecord, hannouncer, _⟩
  have hfalse : record.announcer ∈ s.records.map DhtRecord.announcer :=
    List.mem_map_of_mem hrecord
  rw [hrecords, List.mem_singleton, hannouncer, hsame.1] at hfalse
  contradiction

/-- The user `true` calls itself, up to the announcement. -/
def selfCall (stage : ContactCall twoUsers ℕ) : PresenceState twoUsers ℕ :=
  { offlineState with
    calls := Function.update offlineState.calls 0 (some stage) }

def selfCached : SocketAddr := ⟨.v4 192 0 2 1, 7000⟩

theorem selfCall_update (stage next : ContactCall twoUsers ℕ) :
    Function.update (selfCall stage).calls 0 (some next) =
      (selfCall next).calls :=
  Function.update_idem _ _ _

theorem selfCall_next {stage next : ContactCall twoUsers ℕ}
    {event : ContactCallEvent} (hanswered : stage.answered [] event = true)
    (hstep : stage.step event = some (next, none)) :
    (PresenceState.machine twoUsers ℕ).next (selfCall stage)
      (.goesOn 0 event) = some (selfCall next) := by
  have hcall : (selfCall stage).calls 0 = some stage := by
    simp only [selfCall, Function.update_self]
  have hrecords : (selfCall stage).records = [] := rfl
  unfold PresenceState.machine PresenceState.next
  dsimp only
  rw [hcall, Option.bind_some, hrecords, if_pos hanswered, hstep,
    Option.map_some, selfCall_update]
  rfl

theorem execution_selfCall :
    (PresenceState.machine twoUsers ℕ).Execution
      [(selfCall (.mapping true trueContact selfCached 5000), .goesOn 0 (.mapped none)),
        (selfCall (.binding true trueContact selfCached), .goesOn 0 (.bound (.ok 5000))),
        (offlineState, .connect 0 true trueContact)]
      (selfCall (.announcing true trueContact selfCached 5000)) := by
  have hstart : (PresenceState.machine twoUsers ℕ).start offlineState :=
    starts_offlineState
  have hcalled : (PresenceState.machine twoUsers ℕ).next offlineState
      (.connect 0 true trueContact) =
      some (selfCall (.binding true trueContact selfCached)) := by
    have hbinding : ContactCall.start true trueContact =
        .binding true trueContact selfCached := rfl
    exact congrArg (fun stage => some (selfCall stage)) hbinding
  have hbound : (PresenceState.machine twoUsers ℕ).next
      (selfCall (.binding true trueContact selfCached))
      (.goesOn 0 (.bound (.ok 5000))) =
      some (selfCall (.mapping true trueContact selfCached 5000)) :=
    selfCall_next rfl rfl
  have hmapped : (PresenceState.machine twoUsers ℕ).next
      (selfCall (.mapping true trueContact selfCached 5000))
      (.goesOn 0 (.mapped none)) =
      some (selfCall (.announcing true trueContact selfCached 5000)) :=
    selfCall_next rfl rfl
  exact .step _ (.step _ (.step _ (.start hstart) hcalled) hbound) hmapped

theorem presence_truthful_sample :
    ∃ (history : List (PresenceState twoUsers ℕ × PresenceEvent twoUsers ℕ))
      (s : PresenceState twoUsers ℕ),
      s.records.map DhtRecord.announcer = [true] ∧
        Machine.Throughout Truthful history s := by
  let announced : PresenceEvent twoUsers ℕ :=
    .goesOn 0 (.announced (some strangerIp))
  cases hnext : (PresenceState.machine twoUsers ℕ).next
      (selfCall (.announcing true trueContact selfCached 5000)) announced with
  | none => cases hnext
  | some t =>
      have hexec := Machine.Execution.step announced execution_selfCall hnext
      refine ⟨_, t, ?_, (presence_truthful_iff twoUsers hexec).mpr ?_⟩
      · cases hnext
        rfl
      · intro entry hentry
        simp only [List.mem_cons, List.not_mem_nil, or_false] at hentry
        rcases hentry with rfl | rfl | rfl | rfl
        · intro caller contact peerAddr announcePort hannouncing
          cases hannouncing
          exact Or.inl rfl
        · trivial
        · trivial
        · trivial

end P2pShare
