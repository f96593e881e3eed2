import P2pShare.LookupRace

/-!
# Who is at the other end

A lookup against an attacker that knows the code.  It may answer every
announcement, DHT query, punch, dial and relay pairing with endpoints of its
own, so every event of the lookup is open to it; but a handshake completes only
with a party that holds the private key of the static key it presents.

`lookup_and_connect` hands the presented key on without comparing it with any
other.
-/

namespace P2pShare

open RacingFutures TransitionMachine

def ConnectedSession.remotePubkey {Key : Type} : ConnectedSession Key → Key
  | direct remotePubkey => remotePubkey
  | relay remotePubkey => remotePubkey

inductive Party where
  | sender
  | attacker
  deriving DecidableEq

/-- The static keys of the parties.  The attacker does not have the sender's. -/
structure Keyring (Key : Type) where
  senderKey : Key
  attackerHolds : Key → Bool
  senderKey_safe : attackerHolds senderKey = false

variable {Key : Type} [DecidableEq Key]

/-- The party holds the private key of this static key. -/
def Keyring.holds (keyring : Keyring Key) : Party → Key → Bool
  | .sender, key => key == keyring.senderKey
  | .attacker, key => keyring.attackerHolds key

omit [DecidableEq Key] in
/-- The static key with which the event completes a handshake, if it does. -/
def NetEvent.presented : NetEvent Key → Option Key
  | .handshaken remotePubkey => some remotePubkey
  | _ => none

omit [DecidableEq Key] in
def LookupArmEvent.presented : (Σ arm, LookupArmEvent Key arm) → Option Key
  | ⟨.lan, .inr event⟩ => event.presented
  | ⟨.lan, .inl _⟩ => none
  | ⟨.internet, (_, event)⟩ => event.presented

/-- An event of the lookup, and the party at the other end of it. -/
structure ObservedEvent (Key : Type) where
  event : Σ arm, LookupArmEvent Key arm
  peer : Party

def ObservedEvent.allowed (keyring : Keyring Key)
    (observed : ObservedEvent Key) : Bool :=
  match LookupArmEvent.presented observed.event with
  | some key => keyring.holds observed.peer key
  | none => true

@[reducible] def LookupSlots (Key : Type) : Type :=
  ∀ arm, Poll (LookupArmStage arm) ConnectError (ConnectedSession Key)

/-- The lookup in a world with these keys. -/
def observedLookup (keyring : Keyring Key) (setting : LookupSetting) :
    Machine (LookupSlots Key) (ObservedEvent Key) where
  start := (lookupAndConnect Key setting).machine.start
  next := fun slots observed =>
    if observed.allowed keyring then
      (lookupAndConnect Key setting).machine.next slots observed.event
    else none

/-- A session that the lookup has returned is with the sender. -/
def Authenticated (keyring : Keyring Key) (setting : LookupSetting)
    (slots : LookupSlots Key) : Prop :=
  ∀ session, (lookupAndConnect Key setting).settle slots =
    .ready (.ok session) → session.remotePubkey = keyring.senderKey

/-- A handshake completes with the attacker. -/
def ObservedEvent.Impersonates (observed : ObservedEvent Key) : Prop :=
  observed.peer = .attacker ∧
    ∃ key, LookupArmEvent.presented observed.event = some key

section Steps

omit [DecidableEq Key]

/-- A future ends in a session exactly on the handshake that completes, and the
session carries the key that was presented. -/
structure EndsByHandshake {Stage : Type} (presented : Option Key)
    (poll : Poll Stage ConnectError (ConnectedSession Key)) : Prop where
  key : ∀ session, poll = .ready (.ok session) →
    presented = some session.remotePubkey
  session : ∀ key, presented = some key →
    ∃ session, poll = .ready (.ok session)

variable {setting : LookupSetting}

theorem EndsByHandshake.mapStage {Stage Stage' : Type} {f : Stage → Stage'}
    {presented : Option Key}
    {poll : Poll Stage ConnectError (ConnectedSession Key)}
    (hends : EndsByHandshake presented poll) :
    EndsByHandshake presented (poll.mapStage f) := by
  constructor
  · intro session hsession
    cases poll with
    | pending stage => cases hsession
    | ready result =>
        cases hsession
        exact hends.key session rfl
    | panicked => cases hsession
  · intro key hkey
    obtain ⟨session, rfl⟩ := hends.session key hkey
    exact ⟨session, rfl⟩

theorem EndsByHandshake.of_other {Stage : Type}
    {poll : Poll Stage ConnectError (ConnectedSession Key)}
    (hpoll : ∀ session, poll ≠ .ready (.ok session)) :
    EndsByHandshake none poll :=
  ⟨fun session hsession => absurd hsession (hpoll session),
    fun _ hkey => by cases hkey⟩

theorem dial_endsByHandshake {stage : DialStage} {event : NetEvent Key}
    {poll : Poll DialStage ConnectError (ConnectedSession Key)}
    (hdial : dial stage event = some poll) :
    EndsByHandshake event.presented poll := by
  unfold dial at hdial
  split at hdial
  case h_13 key =>
      cases hdial
      constructor
      · intro session hsession
        cases hsession
        rfl
      · intro _ _
        exact ⟨.direct key, rfl⟩
  all_goals cases hdial
  all_goals exact EndsByHandshake.of_other (by simp)

theorem relay_endsByHandshake {stage : RelayStage} {event : NetEvent Key}
    {poll : Poll RelayStage ConnectError (ConnectedSession Key)}
    (hrelay : connectThroughRelay stage event = some poll) :
    EndsByHandshake event.presented poll := by
  unfold connectThroughRelay at hrelay
  split at hrelay
  case h_5 =>
      split at hrelay
      · cases hrelay
        exact EndsByHandshake.of_other (by simp)
      · cases hrelay
        exact EndsByHandshake.of_other (by simp)
  case h_8 key =>
      cases hrelay
      constructor
      · intro session hsession
        cases hsession
        rfl
      · intro _ _
        exact ⟨.relay key, rfl⟩
  all_goals cases hrelay
  all_goals exact EndsByHandshake.of_other (by simp)

theorem fallBack_ne_ok {Stage : Type} {allowRelay : Bool} {text : String}
    {relaying : RelayStage → Stage} (session : ConnectedSession Key) :
    fallBack allowRelay text relaying ≠ .ready (.ok session) := by
  unfold fallBack
  split <;> simp

theorem holePunch_presented {peer : SocketAddr} {stage : PunchStage}
    {event : NetEvent Key} {poll : Poll PunchStage ConnectError Unit}
    (hpunch : holePunch peer stage event = some poll) :
    event.presented = none := by
  unfold holePunch at hpunch
  split at hpunch
  · rfl
  · rfl
  · rfl
  · rfl
  · contradiction

theorem internet_endsByHandshake {stage : LookupStage} {now : ℕ}
    {event : NetEvent Key}
    {poll : Poll LookupStage ConnectError (ConnectedSession Key)}
    (hresume : internetLookup setting stage (now, event) = some poll) :
    EndsByHandshake event.presented poll := by
  unfold internetLookup at hresume
  split at hresume
  case h_15 sender punch _ inner heq =>
      cases heq
      obtain ⟨punched, hpunch, hpoll⟩ := Option.map_eq_some_iff.mp hresume
      rw [holePunch_presented hpunch]
      apply EndsByHandshake.of_other
      rintro session rfl
      split at hpoll
      · cases hpoll
      · cases hpoll
      · exact fallBack_ne_ok session hpoll
      · cases hpoll
      · cases hpoll
  case h_21 stage _ inner heq =>
      cases heq
      obtain ⟨dialed, hdial, rfl⟩ := Option.map_eq_some_iff.mp hresume
      exact (dial_endsByHandshake hdial).mapStage
  case h_22 stage _ inner heq =>
      cases heq
      obtain ⟨relayed, hrelay, rfl⟩ := Option.map_eq_some_iff.mp hresume
      exact (relay_endsByHandshake hrelay).mapStage
  case h_12 heq =>
      cases heq
      cases hresume
      exact EndsByHandshake.of_other fallBack_ne_ok
  case h_23 => contradiction
  all_goals
    rename_i heq
    cases heq
  all_goals apply EndsByHandshake.of_other
  all_goals try cases hresume
  all_goals try (simp; done)
  -- the stages that decide by a comparison
  all_goals
    split at hresume
    · cases hresume
      simp
    · cases hresume
      simp

theorem lan_endsByHandshake {listeners : List Listener} {late : ConnectError}
    {stage : ({ listener // listener ∈ listeners } →
      Poll ListenStage ConnectError SocketAddr) ⊕ DialStage}
    {event : Option (Σ _ : { listener // listener ∈ listeners },
      NetEvent Key) ⊕ NetEvent Key}
    {poll : Poll _ ConnectError (ConnectedSession Key)}
    (hresume : (lanLookup Key setting listeners late).resume stage event =
      some poll) :
    EndsByHandshake (event.elim (fun _ => none) NetEvent.presented) poll := by
  unfold lanLookup Future.andThen at hresume
  simp only at hresume
  split at hresume
  next first inner =>
      obtain ⟨race, _, rfl⟩ := Option.map_eq_some_iff.mp hresume
      apply EndsByHandshake.of_other
      intro session hsession
      unfold Future.follow at hsession
      split at hsession
      · cases hsession
      · cases hsession
      · cases hsession
      · cases hsession
  next second inner =>
      obtain ⟨dialed, hdial, rfl⟩ := Option.map_eq_some_iff.mp hresume
      exact (dial_endsByHandshake hdial).mapStage
  next => contradiction

/-- In each arm of the lookup, whatever the event. -/
theorem lookup_endsByHandshake {arm : RaceArm} {stage : LookupArmStage arm}
    {event : LookupArmEvent Key arm}
    {poll : Poll (LookupArmStage arm) ConnectError (ConnectedSession Key)}
    (hresume : ((lookupAndConnect Key setting).arms arm).resume stage event =
      some poll) :
    EndsByHandshake (LookupArmEvent.presented ⟨arm, event⟩) poll := by
  cases arm with
  | lan =>
      have hends := lan_endsByHandshake hresume
      cases event with
      | inl inner => exact hends
      | inr inner => exact hends
  | internet => exact internet_endsByHandshake hresume

end Steps

/-! ## Runs against an attacker -/

section Runs

variable {keyring : Keyring Key} {setting : LookupSetting}
  {slots after : LookupSlots Key} {observed : ObservedEvent Key}

theorem observedLookup_next_eq_some :
    (observedLookup keyring setting).next slots observed = some after ↔
      observed.allowed keyring = true ∧
        (lookupAndConnect Key setting).machine.next slots observed.event =
          some after := by
  unfold observedLookup
  by_cases hallowed : observed.allowed keyring = true
  · simp [hallowed]
  · simp [hallowed]

theorem lookup_of_observed
    (hreach : (observedLookup keyring setting).Reachable slots) :
    (lookupAndConnect Key setting).machine.Reachable slots := by
  obtain ⟨s₀, hstart, hleads⟩ := hreach
  have hkept := hleads.preserves
    (P := fun s => (lookupAndConnect Key setting).machine.Reachable s)
    (Machine.Reachable.of_start hstart)
    fun u event v hu hnext =>
      hu.step (observedLookup_next_eq_some.mp hnext).2
  exact hkept

theorem authenticated_step_iff
    (hreach : (observedLookup keyring setting).Reachable slots)
    (hnext : (observedLookup keyring setting).next slots observed =
      some after) :
    Authenticated keyring setting after ↔ ¬ observed.Impersonates := by
  obtain ⟨hallowed, hstep⟩ := observedLookup_next_eq_some.mp hnext
  have hone := lookup_oneDecides ((lookup_of_observed hreach).step hstep)
  obtain ⟨event, peer⟩ := observed
  obtain ⟨⟨_, hgoing⟩, stage, poll, _, hresume, rfl⟩ :=
    Select.machine_next_eq_some.mp hstep
  have hends := lookup_endsByHandshake hresume
  have hsettled : ∀ session,
      (lookupAndConnect Key setting).settle
        (Function.update slots event.1 poll) = .ready (.ok session) ↔
      poll = .ready (.ok session) := by
    intro session
    constructor
    · intro hsettle
      obtain ⟨arm, hslot⟩ | hbad := Select.ok_of_settle hsettle
      · by_cases hsame : arm = event.1
        · subst hsame
          rwa [Function.update_self] at hslot
        · rw [Function.update_of_ne hsame] at hslot
          have hnone := Select.verdict_eq_none_of_pending hgoing arm
          rw [Select.verdict_eq_ok hslot] at hnone
          contradiction
      · cases hbad
    · rintro rfl
      exact hone.settle_ok (Function.update_self ..)
  unfold Authenticated ObservedEvent.Impersonates
  simp only [hsettled]
  constructor
  · rintro hsender ⟨rfl, key, hkey⟩
    obtain ⟨session, hsession⟩ := hends.session key hkey
    have hpresented := hends.key session hsession
    have hheld : keyring.attackerHolds session.remotePubkey = true := by
      simpa [ObservedEvent.allowed, hpresented, Keyring.holds] using hallowed
    rw [hsender session hsession, keyring.senderKey_safe] at hheld
    contradiction
  · intro hhonest session hsession
    have hpresented := hends.key session hsession
    cases peer with
    | sender =>
        simpa [ObservedEvent.allowed, hpresented, Keyring.holds] using hallowed
    | attacker => exact absurd ⟨rfl, _, hpresented⟩ hhonest

/-- In every run against an attacker with the code: the lookup returns only
sessions with the sender exactly when no handshake of the run completes with the
attacker. -/
theorem lookup_authenticates_iff
    {history : List (LookupSlots Key × ObservedEvent Key)}
    (hexec : (observedLookup keyring setting).Execution history slots) :
    Machine.Throughout (Authenticated keyring setting) history slots ↔
      ∀ entry ∈ history, ¬ entry.2.Impersonates := by
  have hstart : ∀ s₀, (observedLookup keyring setting).start s₀ →
      Authenticated keyring setting s₀ := by
    rintro s₀ rfl session hsettle
    obtain ⟨arm, hslot⟩ | hbad := Select.ok_of_settle hsettle
    · have hdecides : (lookupAndConnect Key setting).verdict
          (fun arm => ((lookupAndConnect Key setting).arms arm).start) arm =
            some (.ready (.ok session)) := Select.verdict_eq_ok hslot
      rw [lookup_verdict_start] at hdecides
      contradiction
    · cases hbad
  have hstep : ∀ u event v,
      (observedLookup keyring setting).Reachable u →
      Authenticated keyring setting u →
      (observedLookup keyring setting).next u event = some v →
      (Authenticated keyring setting v ↔ ¬ event.Impersonates) :=
    fun _ _ _ hreach _ hnext => authenticated_step_iff hreach hnext
  exact hexec.throughout_iff hstart hstep

end Runs

/-! ## An impostor on the LAN -/

namespace Impostor

def keyring : Keyring ℕ where
  senderKey := 1
  attackerHolds := fun key => key == 2
  senderKey_safe := rfl

def setting : LookupSetting where
  upper := fun c => [c.toUpper]
  code := "apple-0001".toList
  ios := false
  allowRelay := false

/-- The attacker's own announcement of the code, from its own address. -/
def datagram : NetEvent ℕ :=
  .datagram ("XEND1:APPLE-0001: 4433".toList.map fun c => UInt8.ofNat c.toNat)
    ⟨.v4 10 0 0 66, 52525⟩

def multicast (event : NetEvent ℕ) : Σ arm, LookupArmEvent ℕ arm :=
  ⟨.lan, .inl (some ⟨⟨.multicast, by decide⟩, event⟩)⟩

def dials (event : NetEvent ℕ) : Σ arm, LookupArmEvent ℕ arm :=
  ⟨.lan, .inr event⟩

def events : List (ObservedEvent ℕ) :=
  ([multicast .done, multicast .done, multicast datagram, dials .done,
    dials .done, dials .done, dials .done, dials .done, dials .done,
    dials (.handshaken 2)]).map fun event => ⟨event, .attacker⟩

def session? {Stage : Type} (poll : Poll Stage ConnectError
    (ConnectedSession ℕ)) : Option (ConnectedSession ℕ) :=
  match poll with
  | .ready (.ok session) => some session
  | _ => none

theorem of_session? {Stage : Type}
    {poll : Poll Stage ConnectError (ConnectedSession ℕ)}
    {session : ConnectedSession ℕ} (hsession : session? poll = some session) :
    poll = .ready (.ok session) := by
  unfold session? at hsession
  split at hsession
  · cases hsession
    rfl
  · contradiction

theorem reaches : ∃ slots,
    (observedLookup keyring setting).Reachable slots ∧
      (lookupAndConnect ℕ setting).settle slots =
        .ready (.ok (.direct 2)) := by
  have hrun : ((observedLookup keyring setting).runFrom
      (fun arm => ((lookupAndConnect ℕ setting).arms arm).start) events).map
        (fun slots => session? ((lookupAndConnect ℕ setting).settle slots)) =
          some (some (.direct 2)) := by
    decide +kernel
  obtain ⟨slots, hslots, hsession⟩ := Option.map_eq_some_iff.mp hrun
  exact ⟨slots, Machine.Reachable.of_runFrom rfl hslots, of_session? hsession⟩

end Impostor

open Impostor in
theorem lookup_authenticates_sample : ∃ history slots,
    (observedLookup keyring setting).Execution history slots ∧
      ∃ entry ∈ history, entry.2.Impersonates := by
  obtain ⟨slots, hreach, hsession⟩ := reaches
  obtain ⟨history, hexec⟩ := hreach.execution
  have hiff := lookup_authenticates_iff hexec
  refine ⟨history, slots, hexec, ?_⟩
  by_contra hnone
  push Not at hnone
  have hkey := (hiff.mpr hnone).1 (.direct 2) hsession
  contradiction

open Impostor in
/-- A lookup returns a session with the attacker's key. -/
theorem lookup_accepts_impostor : ∃ slots,
    (observedLookup keyring setting).Reachable slots ∧
      ∃ session, (lookupAndConnect ℕ setting).settle slots =
          .ready (.ok session) ∧
        session.remotePubkey ≠ keyring.senderKey := by
  obtain ⟨slots, hreach, hsession⟩ := reaches
  exact ⟨slots, hreach, .direct 2, hsession, by decide⟩

end P2pShare
