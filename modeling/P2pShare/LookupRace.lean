import P2pShare.ConnectSteps

/-!
# The receiver's lookup

`lookup_and_connect` races the LAN path, which itself races the listeners under
a time limit, against the internet path; `lookup_mdns_only` takes the LAN path
alone.  Both selects use refutable patterns, but only the outer one has an
`else` branch, so the listeners' select panics when the last of them fails.
-/

namespace P2pShare

open RacingFutures TransitionMachine

inductive RaceArm where
  | lan
  | internet
  deriving DecidableEq

theorem RaceArm.mem_both (arm : RaceArm) :
    arm ∈ [RaceArm.lan, RaceArm.internet] := by
  cases arm with
  | lan => exact List.mem_cons_self
  | internet => exact List.mem_cons_of_mem _ List.mem_cons_self

inductive LookupStage where
  | headStart
  | lookup (deadline : ℕ)
  | retry (deadline : ℕ)
  | bindSocket (sender : SocketAddr)
  | readPort (sender : SocketAddr)
  | stun (sender : SocketAddr) (localPort : ℕ)
  | announceSameNat (announcePort : ℕ)
  | sameNatWait
  | announce (sender : SocketAddr) (announcePort : ℕ)
  | natMapping (sender : SocketAddr)
  | punching (sender : SocketAddr) (punch : PunchStage)
  /-- The punches still sent once the hole is open. -/
  | keepPunching (sender : SocketAddr) (left : ℕ)
  | unwrapSocket (sender : SocketAddr)
  | intoStd (sender : SocketAddr)
  | dialing (stage : DialStage)
  | relaying (stage : RelayStage)
  deriving DecidableEq

section Definitions

variable {Key : Type} (setting : LookupSetting)

/-- Hand over to the relay, unless the call was made without it. -/
def fallBack {Stage : Type} (allowRelay : Bool) (text : String) (relaying : RelayStage → Stage) :
    Poll Stage ConnectError (ConnectedSession Key) :=
  if allowRelay then .pending (relaying .connect)
  else .ready (.error (.connectionFailed text))

/-- The internet path.  Each event comes with the clock's reading, in
milliseconds. -/
def internetLookup : LookupStage → ℕ × NetEvent Key →
    Option (Poll LookupStage ConnectError (ConnectedSession Key))
  | .headStart, (now, .elapsed) => some (.pending (.lookup (now + 30000)))
  | .lookup _, (_, .peers (sender :: _)) =>
      some (.pending (.bindSocket sender))
  | .lookup deadline, (now, .peers []) =>
      if deadline ≤ now then some (.ready (.error .peerNotFound))
      else some (.pending (.retry deadline))
  | .retry deadline, (_, .elapsed) => some (.pending (.lookup deadline))
  | .bindSocket sender, (_, .done) => some (.pending (.readPort sender))
  | .bindSocket _, (_, .failed text) => some (.ready (.error (.io text)))
  | .readPort sender, (_, .localPort port) =>
      some (.pending (.stun sender port))
  | .readPort _, (_, .failed text) => some (.ready (.error (.io text)))
  | .stun sender localPort, (_, .external none) =>
      some (.pending (.announce sender localPort))
  | .stun sender _, (_, .external (some ext)) =>
      if ext.ip = sender.ip then some (.pending (.announceSameNat ext.port))
      else some (.pending (.announce sender ext.port))
  | .announceSameNat _, (_, .done) => some (.pending .sameNatWait)
  | .sameNatWait, (_, .elapsed) =>
      some (fallBack setting.allowRelay
        "same-NAT: LAN path failed and relay is disabled" .relaying)
  | .announce sender _, (_, .done) => some (.pending (.natMapping sender))
  | .natMapping sender, (_, .done) =>
      some (.pending (.punching sender .receiving))
  | .punching sender punch, (_, event) =>
      (holePunch sender punch event).map fun
        | .pending punch => .pending (.punching sender punch)
        | .ready (.ok ()) => .pending (.keepPunching sender 10)
        | .ready (.error .holePunchTimeout) =>
            fallBack setting.allowRelay
              "hole punch timed out and relay is disabled" .relaying
        | .ready (.error error) => .ready (.error error)
        | .panicked => .panicked
  | .keepPunching sender (left + 1), (_, .elapsed) =>
      if left = 0 then some (.pending (.unwrapSocket sender))
      else some (.pending (.keepPunching sender left))
  | .unwrapSocket sender, (_, .done) => some (.pending (.intoStd sender))
  | .unwrapSocket _, (_, .failed _) =>
      some (.ready (.error (.connectionFailed "socket still borrowed")))
  | .intoStd sender, (_, .done) =>
      some (.pending (.dialing (.endpoint sender)))
  | .intoStd _, (_, .failed text) => some (.ready (.error (.io text)))
  | .dialing stage, (_, event) =>
      (dial stage event).map (·.mapStage .dialing)
  | .relaying stage, (_, event) =>
      (connectThroughRelay stage event).map (·.mapStage .relaying)
  | _, _ => none

/-- The LAN path: the listeners' race under its limit of 8 s, then the dial. -/
def lanLookup (Key : Type) (setting : LookupSetting)
    (listeners : List Listener) (late : ConnectError) :
    Future
      (({ listener // listener ∈ listeners } →
        Poll ListenStage ConnectError SocketAddr) ⊕ DialStage)
      (Option (Σ _ : { listener // listener ∈ listeners }, NetEvent Key) ⊕
        NetEvent Key)
      ConnectError (ConnectedSession Key) :=
  ((discovery Key setting listeners).future.timeout late).andThen
    (fun sender => .pending (.bind sender)) dial

def allListeners : List Listener :=
  [.multicast, .broadcast, .mdns]

def socketListeners : List Listener :=
  [.multicast, .broadcast]

@[reducible] def LookupArmStage : RaceArm → Type
  | .lan =>
      ({ listener // listener ∈ allListeners } →
        Poll ListenStage ConnectError SocketAddr) ⊕ DialStage
  | .internet => LookupStage

@[reducible] def LookupArmEvent (Key : Type) : RaceArm → Type
  | .lan =>
      Option (Σ _ : { listener // listener ∈ allListeners }, NetEvent Key) ⊕
        NetEvent Key
  | .internet => ℕ × NetEvent Key

def lookupArm (setting : LookupSetting) : ∀ arm,
    Future (LookupArmStage arm) (LookupArmEvent Key arm) ConnectError
      (ConnectedSession Key)
  | .lan => lanLookup Key setting allListeners .peerNotFound
  | .internet => ⟨.pending .headStart, internetLookup setting⟩

/-- Both branches are `Ok(session) = ..`, and `else` returns. -/
def lookupAndConnect (Key : Type) (setting : LookupSetting) :
    Select RaceArm LookupArmStage (LookupArmEvent Key) ConnectError
      (ConnectedSession Key) where
  arms := lookupArm setting
  order := [.lan, .internet]
  complete := RaceArm.mem_both
  refutable := fun _ => true
  otherwise := some (.error .peerNotFound)

def lookupMdnsOnly (Key : Type) (setting : LookupSetting) :=
  lanLookup Key setting socketListeners (.connectionFailed
    "Sender not found on local network. Check that both devices are on the same WiFi and your router does not have AP/Client Isolation enabled.")

end Definitions

section Steps

variable {Key : Type} {setting : LookupSetting}

theorem fallBack_ne_panicked {Stage : Type} {allowRelay : Bool} {text : String}
    {relaying : RelayStage → Stage} :
    fallBack allowRelay text relaying ≠
      (.panicked : Poll Stage ConnectError (ConnectedSession Key)) := by
  unfold fallBack
  split <;> simp

theorem internetLookup_ne_panicked {stage : LookupStage}
    {event : ℕ × NetEvent Key} :
    internetLookup setting stage event ≠ some .panicked := by
  intro hpanicked
  unfold internetLookup at hpanicked
  split at hpanicked
  case h_15 sender punch _ inner =>
      obtain ⟨poll, hpunch, hpoll⟩ := Option.map_eq_some_iff.mp hpanicked
      have hne : poll ≠ .panicked := by
        intro hbad
        rw [hbad] at hpunch
        exact holePunch_ne_panicked hpunch
      split at hpoll
      · contradiction
      · contradiction
      · exact fallBack_ne_panicked hpoll
      · contradiction
      · exact hne rfl
  case h_21 stage _ inner =>
      obtain ⟨poll, hdial, hpoll⟩ := Option.map_eq_some_iff.mp hpanicked
      rw [Poll.mapStage_eq_panicked.mp hpoll] at hdial
      exact dial_ne_panicked hdial
  case h_22 stage _ inner =>
      obtain ⟨poll, hrelay, hpoll⟩ := Option.map_eq_some_iff.mp hpanicked
      rw [Poll.mapStage_eq_panicked.mp hpoll] at hrelay
      exact connectThroughRelay_ne_panicked hrelay
  case h_12 =>
      exact fallBack_ne_panicked (Option.some.inj hpanicked)
  all_goals try cases hpanicked
  all_goals
    split at hpanicked <;> cases hpanicked

/-- The last listener fails while the race of the listeners goes on. -/
def DiscoveryDies (setting : LookupSetting) {listeners : List Listener}
    (stage : ({ listener // listener ∈ listeners } →
      Poll ListenStage ConnectError SocketAddr) ⊕ DialStage)
    (event : Option (Σ _ : { listener // listener ∈ listeners },
      NetEvent Key) ⊕ NetEvent Key) : Prop :=
  ∃ found inner, stage = .inl found ∧ event = .inl (some inner) ∧
    LastListenerFails setting found inner

/-- No listener has panicked while the race of the listeners goes on. -/
def DiscoveryClean {listeners : List Listener}
    (stage : ({ listener // listener ∈ listeners } →
      Poll ListenStage ConnectError SocketAddr) ⊕ DialStage) : Prop :=
  ∀ found, stage = .inl found → ∀ listener, found listener ≠ .panicked

variable {listeners : List Listener} {late : ConnectError}

theorem Listener.start_cases (Key : Type) (setting : LookupSetting)
    (listener : Listener) :
    (listener.future Key setting).start = .pending .opening ∨
      (listener.future Key setting).start.Failed := by
  cases listener with
  | multicast =>
      simp only [Listener.future, listenForMulticast]
      split
      · exact Or.inr trivial
      · exact Or.inl rfl
  | broadcast => exact Or.inl rfl
  | mdns => exact Or.inl rfl

/-- A race with a broadcast listener has something to wait for. -/
theorem lanLookup_start (hbroadcast : .broadcast ∈ listeners) :
    (lanLookup Key setting listeners late).start =
      .pending (.inl fun listener =>
        (listener.1.future Key setting).start) := by
  have hsettle : (discovery Key setting listeners).settle
      (fun listener => (listener.1.future Key setting).start) =
        .pending fun listener => (listener.1.future Key setting).start := by
    obtain ⟨listener, hverdict⟩ | ⟨_, hfailed, _⟩ | ⟨_, _, hpending⟩ :=
      (discovery Key setting listeners).settle_cases
        (fun listener => (listener.1.future Key setting).start)
    · exfalso
      have hstart := Listener.start_cases Key setting listener.1
      obtain ⟨value, hslot, _⟩ | ⟨_, _, hmust, _⟩ | ⟨hslot, _⟩ :=
        Select.verdict_cases hverdict
      · simp [hslot, Poll.Failed] at hstart
      · contradiction
      · simp [hslot, Poll.Failed] at hstart
    · exact absurd (hfailed ⟨.broadcast, hbroadcast⟩) not_false
    · exact hpending
  simp only [lanLookup, Future.andThen, Future.timeout, Select.future]
  exact congrArg (Future.follow _) hsettle

theorem lanLookup_start_clean (hbroadcast : .broadcast ∈ listeners)
    {stage : ({ listener // listener ∈ listeners } →
      Poll ListenStage ConnectError SocketAddr) ⊕ DialStage}
    (hstage : (lanLookup Key setting listeners late).start = .pending stage) :
    DiscoveryClean stage := by
  rintro found rfl listener
  rw [lanLookup_start hbroadcast] at hstage
  cases hstage
  obtain hstart | hfailed :=
    Listener.start_cases Key setting listener.1
  · simp [hstart]
  · intro hpanicked
    simp only at hpanicked
    rw [hpanicked] at hfailed
    exact hfailed

theorem lanLookup_resume_clean
    {stage after : ({ listener // listener ∈ listeners } →
      Poll ListenStage ConnectError SocketAddr) ⊕ DialStage}
    {event : Option (Σ _ : { listener // listener ∈ listeners },
      NetEvent Key) ⊕ NetEvent Key}
    (hresume : (lanLookup Key setting listeners late).resume stage event =
      some (.pending after)) : DiscoveryClean after := by
  rintro found rfl
  unfold lanLookup Future.andThen at hresume
  simp only at hresume
  split at hresume
  next first inner =>
      obtain ⟨race, hrace, hfollow⟩ := Option.map_eq_some_iff.mp hresume
      cases inner with
      | none =>
          cases hrace
          cases hfollow
      | some inner =>
          obtain ⟨after, _, hafter⟩ := Option.map_eq_some_iff.mp hrace
          cases race with
          | pending slots =>
              cases hfollow
              exact Select.ne_panicked_of_pending hafter
          | ready result =>
              cases result with
              | error error => cases hfollow
              | ok sender => cases hfollow
          | panicked => cases hfollow
  next second inner =>
      obtain ⟨poll, _, hpoll⟩ := Option.map_eq_some_iff.mp hresume
      cases poll with
      | pending stage => cases hpoll
      | ready result => cases hpoll
      | panicked => cases hpoll
  next => contradiction

/-- The LAN path panics exactly when its last listener fails. -/
theorem lanLookup_panicked_iff
    {stage : ({ listener // listener ∈ listeners } →
      Poll ListenStage ConnectError SocketAddr) ⊕ DialStage}
    {event : Option (Σ _ : { listener // listener ∈ listeners },
      NetEvent Key) ⊕ NetEvent Key}
    {poll : Poll _ ConnectError (ConnectedSession Key)}
    (hclean : DiscoveryClean stage)
    (hresume : (lanLookup Key setting listeners late).resume stage event =
      some poll) :
    poll = .panicked ↔ DiscoveryDies setting stage event := by
  have hpanic : poll = .panicked ↔
      (lanLookup Key setting listeners late).resume stage event =
        some .panicked := by
    rw [hresume, Option.some.injEq]
  rw [hpanic]
  unfold lanLookup
  rw [Future.andThen_resume_eq_panicked (by simp)
    (fun _ _ => dial_ne_panicked)]
  simp only [Future.timeout_resume_eq_panicked]
  constructor
  · rintro ⟨found, _, rfl, rfl, inner, rfl, hrace⟩
    have hlast := (discovery_panicked_iff (hclean found rfl) hrace).mp rfl
    exact ⟨found, inner, rfl, rfl, hlast⟩
  · rintro ⟨found, inner, rfl, rfl, hlast⟩
    refine ⟨found, some inner, rfl, rfl, inner, rfl, ?_⟩
    have hsome : ∃ race, (discovery Key setting listeners).future.resume found
        inner = some race := by
      unfold lanLookup Future.andThen at hresume
      obtain ⟨race, hrace, _⟩ := Option.map_eq_some_iff.mp hresume
      exact ⟨race, hrace⟩
    obtain ⟨race, hrace⟩ := hsome
    rw [hrace, (discovery_panicked_iff (hclean found rfl) hrace).mpr hlast]

end Steps

/-! ## Whole lookups -/

/-- The lookup has not panicked, has the session that some arm completed, and
has failed only with all its arms. -/
structure LookupKept {Key : Type} (setting : LookupSetting)
    (slots : ∀ arm, Poll (LookupArmStage arm) ConnectError
      (ConnectedSession Key)) : Prop where
  alive : (lookupAndConnect Key setting).settle slots ≠ .panicked
  completed : ∀ arm session, slots arm = .ready (.ok session) →
    (lookupAndConnect Key setting).settle slots = .ready (.ok session)
  exhausted : ∀ error,
    (lookupAndConnect Key setting).settle slots = .ready (.error error) →
    ∀ arm, (slots arm).Failed

/-- The step is the failure of the last listener of the LAN path. -/
def LosesListeners {Key : Type} (setting : LookupSetting)
    (slots : ∀ arm, Poll (LookupArmStage arm) ConnectError
      (ConnectedSession Key))
    (event : Σ arm, LookupArmEvent Key arm) : Prop :=
  ∃ stage inner, slots .lan = .pending stage ∧ event = ⟨.lan, inner⟩ ∧
    DiscoveryDies setting stage inner

/-- The same for the lookup that has only this path. -/
def LosesSockets {Key : Type} (setting : LookupSetting)
    (poll : Poll (({ listener // listener ∈ socketListeners } →
      Poll ListenStage ConnectError SocketAddr) ⊕ DialStage) ConnectError
      (ConnectedSession Key))
    (event : Option (Σ _ : { listener // listener ∈ socketListeners },
      NetEvent Key) ⊕ NetEvent Key) : Prop :=
  ∃ stage, poll = .pending stage ∧ DiscoveryDies setting stage event

section Runs

variable {Key : Type} {setting : LookupSetting}
  {slots : ∀ arm, Poll (LookupArmStage arm) ConnectError
    (ConnectedSession Key)}

theorem lookup_verdict_start (Key : Type) (setting : LookupSetting)
    (arm : RaceArm) :
    (lookupAndConnect Key setting).verdict
      (fun arm => ((lookupAndConnect Key setting).arms arm).start) arm =
        none := by
  cases arm with
  | lan =>
      have hstart : ((lookupAndConnect Key setting).arms .lan).start =
          .pending (.inl fun listener =>
            (listener.1.future Key setting).start) :=
        lanLookup_start (by decide)
      simp only [Select.verdict, hstart]
  | internet => rfl

theorem lookup_oneDecides
    (hreach : (lookupAndConnect Key setting).machine.Reachable slots) :
    (lookupAndConnect Key setting).OneDecides slots :=
  Select.oneDecides_of_reachable (lookup_verdict_start Key setting) hreach

theorem lookup_lan_clean
    (hreach : (lookupAndConnect Key setting).machine.Reachable slots) :
    ∀ stage, slots .lan = .pending stage → DiscoveryClean stage := by
  apply hreach.invariant
  · rintro s₀ rfl stage hstage
    exact lanLookup_start_clean (by decide) hstage
  · intro u event v hu hnext stage hstage
    obtain ⟨_, before, poll, _, hresume, rfl⟩ :=
      Select.machine_next_eq_some.mp hnext
    obtain ⟨arm, inner⟩ := event
    cases arm with
    | lan =>
        rw [Function.update_self] at hstage
        subst hstage
        exact lanLookup_resume_clean hresume
    | internet =>
        have hne : RaceArm.lan ≠ RaceArm.internet := by decide
        rw [Function.update_of_ne hne] at hstage
        exact hu stage hstage

theorem lookupKept_iff
    (hreach : (lookupAndConnect Key setting).machine.Reachable slots) :
    LookupKept setting slots ↔ ∀ arm, slots arm ≠ .panicked := by
  have hone := lookup_oneDecides hreach
  constructor
  · intro hkept arm hpanicked
    exact hkept.alive (hone.settle_panicked hpanicked)
  · intro hnone
    constructor
    · intro hpanicked
      obtain ⟨arm, harm⟩ | ⟨hbad, _⟩ := Select.panic_of_settle hpanicked
      · exact hnone arm harm
      · contradiction
    · intro arm session hslot
      exact hone.settle_ok hslot
    · intro error herror
      obtain ⟨_, hmust, _⟩ | hfailed := Select.error_of_settle herror
      · contradiction
      · exact hfailed

theorem lookup_step_iff {event : Σ arm, LookupArmEvent Key arm}
    {after : ∀ arm, Poll (LookupArmStage arm) ConnectError
      (ConnectedSession Key)}
    (hreach : (lookupAndConnect Key setting).machine.Reachable slots)
    (hnext : (lookupAndConnect Key setting).machine.next slots event =
      some after) :
    LookupKept setting after ↔ ¬ LosesListeners setting slots event := by
  rw [lookupKept_iff (hreach.step hnext)]
  obtain ⟨⟨_, hgoing⟩, stage, poll, hslot, hresume, rfl⟩ :=
    Select.machine_next_eq_some.mp hnext
  have hclean : ∀ arm, slots arm ≠ .panicked := by
    intro arm
    have hnone := Select.ne_panicked_of_pending hgoing arm
    rwa [Select.eq_of_settle_pending hgoing] at hnone
  have hupdate : (∀ arm, Function.update slots event.1 poll arm ≠ .panicked) ↔
      poll ≠ .panicked := by
    constructor
    · intro hall
      have hself := hall event.1
      rwa [Function.update_self] at hself
    · intro hpoll arm
      by_cases hsame : arm = event.1
      · subst hsame
        rwa [Function.update_self]
      · rw [Function.update_of_ne hsame]
        exact hclean arm
  rw [hupdate, not_iff_not]
  obtain ⟨arm, inner⟩ := event
  cases arm with
  | lan =>
      have hstage := lookup_lan_clean hreach stage hslot
      rw [lanLookup_panicked_iff hstage hresume]
      constructor
      · intro hdies
        exact ⟨stage, inner, hslot, rfl, hdies⟩
      · rintro ⟨stage', inner', hslot', hevent, hdies⟩
        rw [hslot] at hslot'
        cases hslot'
        cases hevent
        exact hdies
  | internet =>
      constructor
      · rintro rfl
        exact absurd hresume internetLookup_ne_panicked
      · rintro ⟨_, _, _, hevent, _⟩
        cases hevent

/-- A step of `lookup_mdns_only` panics exactly when its last listener fails. -/
theorem mdnsOnly_step_iff
    {event : Option (Σ _ : { listener // listener ∈ socketListeners },
      NetEvent Key) ⊕ NetEvent Key}
    {poll after : Poll _ ConnectError (ConnectedSession Key)}
    (hreach : (lookupMdnsOnly Key setting).machine.Reachable poll)
    (hnext : (lookupMdnsOnly Key setting).machine.next poll event =
      some after) :
    after ≠ .panicked ↔ ¬ LosesSockets setting poll event := by
  have hclean : ∀ stage, poll = .pending stage → DiscoveryClean stage := by
    apply hreach.invariant
    · rintro s₀ rfl stage hstage
      exact lanLookup_start_clean (by decide) hstage
    · intro u event v _ hnext stage hstage
      obtain ⟨before, _, hresume⟩ := Future.machine_next_eq_some.mp hnext
      subst hstage
      exact lanLookup_resume_clean hresume
  obtain ⟨stage, rfl, hresume⟩ := Future.machine_next_eq_some.mp hnext
  have hpanicked := lanLookup_panicked_iff (hclean stage rfl) hresume
  rw [Ne, hpanicked, not_iff_not]
  constructor
  · intro hdies
    exact ⟨stage, rfl, hdies⟩
  · rintro ⟨stage', hstage', hdies⟩
    cases hstage'
    exact hdies

/-- In every run of the two lookups the call never panics, `lookup_and_connect`
returns the session that some arm completes and fails only with every arm,
exactly when in no step of the run the last LAN listener fails before one has
found the sender or the time limit is over. -/
theorem lookup_survives_iff {Key : Type} (setting : LookupSetting) :
    (∀ history slots,
      (lookupAndConnect Key setting).machine.Execution history slots →
      (Machine.Throughout (LookupKept setting) history slots ↔
        ∀ entry ∈ history, ¬ LosesListeners setting entry.1 entry.2)) ∧
    (∀ history poll,
      (lookupMdnsOnly Key setting).machine.Execution history poll →
      (Machine.Throughout (fun poll => poll ≠ .panicked) history poll ↔
        ∀ entry ∈ history, ¬ LosesSockets setting entry.1 entry.2)) := by
  constructor
  · intro history slots hexec
    have hstart : ∀ s₀, (lookupAndConnect Key setting).machine.start s₀ →
        LookupKept setting s₀ := by
      intro s₀ hs₀
      rw [lookupKept_iff (Machine.Reachable.of_start hs₀)]
      cases hs₀
      intro arm hpanicked
      have hdecides : (lookupAndConnect Key setting).verdict
          (fun arm => ((lookupAndConnect Key setting).arms arm).start) arm =
            some .panicked := Select.verdict_eq_panicked hpanicked
      rw [lookup_verdict_start] at hdecides
      contradiction
    have hstep : ∀ u event v,
        (lookupAndConnect Key setting).machine.Reachable u →
        LookupKept setting u →
        (lookupAndConnect Key setting).machine.next u event = some v →
        (LookupKept setting v ↔ ¬ LosesListeners setting u event) :=
      fun _ _ _ hreach _ hnext => lookup_step_iff hreach hnext
    exact hexec.throughout_iff hstart hstep
  · intro history poll hexec
    have hstart : ∀ s₀, (lookupMdnsOnly Key setting).machine.start s₀ →
        s₀ ≠ .panicked := by
      rintro s₀ rfl
      have hmem : Listener.broadcast ∈ socketListeners := by decide
      simp [lookupMdnsOnly, lanLookup_start hmem]
    have hstep : ∀ u event v,
        (lookupMdnsOnly Key setting).machine.Reachable u → u ≠ .panicked →
        (lookupMdnsOnly Key setting).machine.next u event = some v →
        (v ≠ .panicked ↔ ¬ LosesSockets setting u event) :=
      fun _ _ _ hreach _ hnext => mdnsOnly_step_iff hreach hnext
    exact hexec.throughout_iff hstart hstep

end Runs

/-! ## A device without listeners -/

namespace DeafDevice

def setting : LookupSetting where
  upper := fun c => [c.toUpper]
  code := "APPLE-0001".toList
  ios := true
  allowRelay := true

def broadcastFails : NetEvent Unit :=
  .failed "Address already in use (os error 48)"

/-- iOS has no multicast; the broadcast port is taken, and then the mDNS daemon
cannot start.  The internet arm is still in its head start. -/
def events : List (Σ arm, LookupArmEvent Unit arm) :=
  [⟨.lan, .inl (some ⟨⟨.broadcast, by decide⟩, broadcastFails⟩)⟩,
    ⟨.lan, .inl (some ⟨⟨.mdns, by decide⟩, .failed "no socket"⟩)⟩]

def socketEvents : List (Option (Σ _ : { listener //
    listener ∈ socketListeners }, NetEvent Unit) ⊕ NetEvent Unit) :=
  [.inl (some ⟨⟨.broadcast, by decide⟩, broadcastFails⟩)]

def panics {Stage : Type} (poll : Poll Stage ConnectError
    (ConnectedSession Unit)) : Bool :=
  match poll with
  | .panicked => true
  | _ => false

theorem panics_iff {Stage : Type} {poll : Poll Stage ConnectError
    (ConnectedSession Unit)} : panics poll = true ↔ poll = .panicked := by
  cases poll <;> simp [panics]

def inHeadStart {ε α : Type} (poll : Poll LookupStage ε α) : Bool :=
  match poll with
  | .pending stage => stage == .headStart
  | _ => false

theorem of_inHeadStart {ε α : Type} {poll : Poll LookupStage ε α}
    (hinside : inHeadStart poll = true) : poll = .pending .headStart := by
  cases poll with
  | pending stage => rw [of_decide_eq_true hinside]
  | ready result => contradiction
  | panicked => contradiction

theorem panics_lookup : ∃ slots,
    (lookupAndConnect Unit setting).machine.Reachable slots ∧
      (lookupAndConnect Unit setting).settle slots = .panicked ∧
      slots .internet = .pending .headStart := by
  have hrun : ((lookupAndConnect Unit setting).machine.runFrom
      (fun arm => ((lookupAndConnect Unit setting).arms arm).start)
      events).map (fun slots =>
        panics ((lookupAndConnect Unit setting).settle slots) &&
          inHeadStart (slots .internet)) = some true := by
    decide +kernel
  obtain ⟨slots, hslots, hends⟩ := Option.map_eq_some_iff.mp hrun
  rw [Bool.and_eq_true] at hends
  obtain ⟨hpanics, hinternet⟩ := hends
  exact ⟨slots, Machine.Reachable.of_runFrom rfl hslots,
    panics_iff.mp hpanics, of_inHeadStart hinternet⟩

theorem panics_sockets :
    (lookupMdnsOnly Unit setting).machine.Reachable .panicked := by
  have hrun : ((lookupMdnsOnly Unit setting).machine.runFrom
      (lookupMdnsOnly Unit setting).start socketEvents).map panics =
        some true := by
    decide +kernel
  obtain ⟨poll, hpoll, hpanics⟩ := Option.map_eq_some_iff.mp hrun
  rw [← panics_iff.mp hpanics]
  exact Machine.Reachable.of_runFrom rfl hpoll

end DeafDevice

open DeafDevice in
theorem lookup_survives_sample :
    (∃ history slots,
      (lookupAndConnect Unit setting).machine.Execution history slots ∧
        ∃ entry ∈ history, LosesListeners setting entry.1 entry.2) ∧
    ∃ history poll,
      (lookupMdnsOnly Unit setting).machine.Execution history poll ∧
        ∃ entry ∈ history, LosesSockets setting entry.1 entry.2 := by
  constructor
  · obtain ⟨slots, hreach, hpanicked, _⟩ := panics_lookup
    obtain ⟨history, hexec⟩ := hreach.execution
    have hiff := (lookup_survives_iff setting).1 history slots hexec
    refine ⟨history, slots, hexec, ?_⟩
    by_contra hnone
    push Not at hnone
    exact (hiff.mpr hnone).1.alive hpanicked
  · obtain ⟨history, hexec⟩ := panics_sockets.execution
    have hiff := (lookup_survives_iff setting).2 history .panicked hexec
    refine ⟨history, .panicked, hexec, ?_⟩
    by_contra hnone
    push Not at hnone
    exact (hiff.mpr hnone).1 rfl

open DeafDevice in
/-- Both lookups panic, the first with its internet arm still going. -/
theorem lookup_panics_without_listeners :
    (∃ slots, (lookupAndConnect Unit setting).machine.Reachable slots ∧
      (lookupAndConnect Unit setting).settle slots = .panicked ∧
      slots .internet = .pending .headStart) ∧
    ∃ poll, (lookupMdnsOnly Unit setting).machine.Reachable poll ∧
      poll = .panicked :=
  ⟨panics_lookup, .panicked, panics_sockets, rfl⟩

end P2pShare
