import P2pShare.LookupRace

/-!
# The sender's wait

After its set-up, `announce_and_connect_with_code` races the LAN accept loop
against the internet path.  The LAN branch is refutable, but the internet branch
takes any result and hands its error to the caller.  The clock is one, in
milliseconds since the epoch.
-/

namespace P2pShare

open RacingFutures TransitionMachine

/-- `secs_until_expiry` at a reading of the clock. -/
def secsUntilExpiry (now : ℕ) : ℕ :=
  (now / 1000 / 3600 + 1) * 3600 - now / 1000

/-- The end of the hour in which the call told the user its code. -/
def codeExpiry (called : ℕ) : ℕ :=
  (called / 1000 / 3600 + 1) * 3600 * 1000

/-- The deadline that the internet path gives to `poll_for_receiver`. -/
def pollDeadline (now : ℕ) : ℕ :=
  now + max (secsUntilExpiry now) 120 * 1000

/-- A later call's deadline comes after an earlier code's expiry. -/
theorem codeExpiry_le_pollDeadline {called now : ℕ} (hcalled : called ≤ now) :
    codeExpiry called ≤ pollDeadline now := by
  have hhour : called / 1000 / 3600 ≤ now / 1000 / 3600 :=
    Nat.div_le_div_right (Nat.div_le_div_right hcalled)
  have hsecs : secsUntilExpiry now ≤ max (secsUntilExpiry now) 120 :=
    Nat.le_max_left _ _
  unfold pollDeadline codeExpiry
  unfold secsUntilExpiry at hsecs ⊢
  omega

/-! ## The set-up -/

inductive SetUpStage where
  | lanConfig
  | lanBind
  | lanPort
  | lanEndpoint (lanPort : ℕ)
  | advertise (lanPort : ℕ)
  | multicaster (lanPort : ℕ)
  | broadcaster (lanPort : ℕ)
  | internetConfig
  | punchBind
  | punchPort
  | stun (localPort : ℕ)
  | announce (ownExtIp : Option IpAddr) (announcePort : ℕ)
  deriving DecidableEq

/-- The stages that open the LAN endpoint. -/
def SetUpStage.opensLan : SetUpStage → Bool
  | .lanConfig | .lanBind | .lanPort | .lanEndpoint _ => true
  | _ => false

section Definitions

variable {Key : Type}

/-- Up to the select; its result is the external address that STUN gave.  The
advertisers' failures are ignored. -/
def setUp : SetUpStage → NetEvent Key →
    Option (Poll SetUpStage ConnectError (Option IpAddr))
  | .lanConfig, .done => some (.pending .lanBind)
  | .lanConfig, .failed text => some (.ready (.error (.quic text)))
  | .lanBind, .done => some (.pending .lanPort)
  | .lanBind, .failed text => some (.ready (.error (.io text)))
  | .lanPort, .localPort port => some (.pending (.lanEndpoint port))
  | .lanPort, .failed text => some (.ready (.error (.io text)))
  | .lanEndpoint port, .done => some (.pending (.advertise port))
  | .lanEndpoint _, .failed text => some (.ready (.error (.quic text)))
  | .advertise port, .done => some (.pending (.multicaster port))
  | .advertise port, .failed _ => some (.pending (.multicaster port))
  | .multicaster port, .done => some (.pending (.broadcaster port))
  | .multicaster port, .failed _ => some (.pending (.broadcaster port))
  | .broadcaster _, .done => some (.pending .internetConfig)
  | .broadcaster _, .failed _ => some (.pending .internetConfig)
  | .internetConfig, .done => some (.pending .punchBind)
  | .internetConfig, .failed text => some (.ready (.error (.quic text)))
  | .punchBind, .done => some (.pending .punchPort)
  | .punchBind, .failed text => some (.ready (.error (.io text)))
  | .punchPort, .localPort port => some (.pending (.stun port))
  | .punchPort, .failed text => some (.ready (.error (.io text)))
  | .stun _, .external (some ext) =>
      some (.pending (.announce (some ext.ip) ext.port))
  | .stun localPort, .external none =>
      some (.pending (.announce none localPort))
  | .announce ownExtIp _, .done => some (.ready (.ok ownExtIp))
  | _, _ => none

/-- The internet part of the set-up fails. -/
def SetUpStage.Fails : SetUpStage → NetEvent Key → Prop
  | .internetConfig, .failed _ => True
  | .punchBind, .failed _ => True
  | .punchPort, .failed _ => True
  | _, _ => False

/-! ## The two arms -/

inductive AcceptStage where
  | accept
  | incoming
  | connecting
  | acceptBi
  | handshake
  deriving DecidableEq

/-- The LAN accept loop: only a closed endpoint ends it with an error. -/
def lanAccept : AcceptStage → NetEvent Key →
    Option (Poll AcceptStage ConnectError (ConnectedSession Key))
  | .accept, .incoming => some (.pending .incoming)
  | .accept, .endpointClosed =>
      some (.ready (.error (.connectionFailed "LAN endpoint closed")))
  | .incoming, .done => some (.pending .connecting)
  | .incoming, .failed _ => some (.pending .accept)
  | .connecting, .done => some (.pending .acceptBi)
  | .connecting, .failed _ => some (.pending .accept)
  | .acceptBi, .done => some (.pending .handshake)
  | .acceptBi, .failed _ => some (.pending .accept)
  | .handshake, .handshaken remotePubkey =>
      some (.ready (.ok (.direct remotePubkey)))
  | .handshake, .refused _ => some (.pending .accept)
  | _, _ => none

inductive AnnounceStage where
  | lookup (deadline lastAnnounce : ℕ)
  | reannounce (deadline : ℕ)
  | rest (deadline lastAnnounce : ℕ)
  | sameNatWait
  | natMapping (receiver : SocketAddr)
  | punching (receiver : SocketAddr) (punch : PunchStage)
  | unwrapSocket
  | intoStd
  | endpoint
  | accept
  | incoming
  | connecting
  | acceptBi
  | handshake
  | relaying (stage : RelayStage)
  deriving DecidableEq

/-- What the arm makes of the hole punch's result. -/
def afterPunch (allowRelay : Bool) (receiver : SocketAddr) :
    Poll PunchStage ConnectError Unit →
      Poll AnnounceStage ConnectError (ConnectedSession Key)
  | .pending punch => .pending (.punching receiver punch)
  | .ready (.ok ()) => .pending .unwrapSocket
  | .ready (.error .holePunchTimeout) =>
      fallBack allowRelay "hole punch timed out and relay is disabled" .relaying
  | .ready (.error error) => .ready (.error error)
  | .panicked => .panicked

/-- `poll_for_receiver`, then the hole punch and the QUIC accept, or the relay. -/
def internetAnnounce (allowRelay : Bool) (ownExtIp : Option IpAddr) :
    AnnounceStage → ℕ × NetEvent Key →
      Option (Poll AnnounceStage ConnectError (ConnectedSession Key))
  | .lookup _ _, (_, .peers (receiver :: _)) =>
      if ownExtIp = some receiver.ip then some (.pending .sameNatWait)
      else some (.pending (.natMapping receiver))
  | .lookup deadline lastAnnounce, (now, .peers []) =>
      if deadline ≤ now then some (.ready (.error .peerNotFound))
      else if 240000 ≤ now - lastAnnounce then
        some (.pending (.reannounce deadline))
      else some (.pending (.rest deadline lastAnnounce))
  | .reannounce deadline, (now, .done) => some (.pending (.rest deadline now))
  | .rest deadline lastAnnounce, (_, .elapsed) =>
      some (.pending (.lookup deadline lastAnnounce))
  | .sameNatWait, (_, .elapsed) =>
      some (fallBack allowRelay
        "same-NAT: LAN path failed and relay is disabled" .relaying)
  | .natMapping receiver, (_, .done) =>
      some (.pending (.punching receiver .receiving))
  | .punching receiver punch, (_, event) =>
      (holePunch receiver punch event).map (afterPunch allowRelay receiver)
  | .unwrapSocket, (_, .done) => some (.pending .intoStd)
  | .unwrapSocket, (_, .failed _) =>
      some (.ready (.error (.connectionFailed "socket still borrowed")))
  | .intoStd, (_, .done) => some (.pending .endpoint)
  | .intoStd, (_, .failed text) => some (.ready (.error (.io text)))
  | .endpoint, (_, .done) => some (.pending .accept)
  | .endpoint, (_, .failed text) => some (.ready (.error (.quic text)))
  | .accept, (_, .incoming) => some (.pending .incoming)
  | .accept, (_, .elapsed) =>
      some (.ready (.error (.connectionFailed "timed out waiting for QUIC")))
  | .accept, (_, .endpointClosed) =>
      some (.ready (.error (.connectionFailed "endpoint closed")))
  | .incoming, (_, .done) => some (.pending .connecting)
  | .incoming, (_, .failed text) => some (.ready (.error (.quic text)))
  | .connecting, (_, .done) => some (.pending .acceptBi)
  | .connecting, (_, .failed text) => some (.ready (.error (.quic text)))
  | .acceptBi, (_, .done) => some (.pending .handshake)
  | .acceptBi, (_, .failed text) => some (.ready (.error (.quic text)))
  | .handshake, (_, .handshaken remotePubkey) =>
      some (.ready (.ok (.direct remotePubkey)))
  | .handshake, (_, .refused error) => some (.ready (.error error))
  | .relaying stage, (_, event) =>
      (connectThroughRelay stage event).map (·.mapStage .relaying)
  | _, _ => none

/-- The failures of the internet path once it has found a receiver. -/
def AnnounceStage.Fails (allowRelay : Bool) :
    AnnounceStage → NetEvent Key → Prop
  | .sameNatWait, .elapsed => allowRelay = false
  | .punching _ .receiving, .failed _ => True
  | .punching _ .receiving, .elapsed => allowRelay = false
  | .unwrapSocket, .failed _ => True
  | .intoStd, .failed _ => True
  | .endpoint, .failed _ => True
  | .accept, .elapsed => True
  | .accept, .endpointClosed => True
  | .incoming, .failed _ => True
  | .connecting, .failed _ => True
  | .acceptBi, .failed _ => True
  | .handshake, .refused _ => True
  | .relaying stage, event => stage.Fails event
  | _, _ => False

/-- The deadline of the poll, while it goes on. -/
def AnnounceStage.deadline? : AnnounceStage → Option ℕ
  | .lookup deadline _ | .reannounce deadline | .rest deadline _ =>
      some deadline
  | _ => none

/-! ## The call -/

@[reducible] def AnnounceArmStage : RaceArm → Type
  | .lan => AcceptStage
  | .internet => AnnounceStage

/-- What the set-up leaves to the select. -/
structure AnnounceSetting where
  allowRelay : Bool
  ownExtIp : Option IpAddr
  started : ℕ
  deriving DecidableEq

def announceArm (setting : AnnounceSetting) : ∀ arm,
    Future (AnnounceArmStage arm) (ℕ × NetEvent Key) ConnectError
      (ConnectedSession Key)
  | .lan => ⟨.pending .accept, fun stage event => lanAccept stage event.2⟩
  | .internet =>
      ⟨.pending (.lookup (pollDeadline setting.started) setting.started),
        internetAnnounce setting.allowRelay setting.ownExtIp⟩

/-- The branches are `Ok(session) = ..` and `result = .. => result?`. -/
def announceRace (Key : Type) (setting : AnnounceSetting) :
    Select RaceArm AnnounceArmStage (fun _ => ℕ × NetEvent Key) ConnectError
      (ConnectedSession Key) where
  arms := announceArm setting
  order := [.lan, .internet]
  complete := RaceArm.mem_both
  refutable := fun arm => arm == .lan
  otherwise := none

@[reducible] def AnnounceSlots (Key : Type) : Type :=
  ∀ arm, Poll (AnnounceArmStage arm) ConnectError (ConnectedSession Key)

inductive AnnouncePhase (Key : Type) where
  | settingUp (stage : SetUpStage)
  /-- The set-up has returned an error at this stage. -/
  | abandoned (stage : SetUpStage) (error : ConnectError)
  | racing (setting : AnnounceSetting) (slots : AnnounceSlots Key)

structure AnnounceState (Key : Type) where
  called : ℕ
  now : ℕ
  phase : AnnouncePhase Key

inductive AnnounceStep (Key : Type) where
  | setUp (event : NetEvent Key)
  | arm (arm : RaceArm) (event : NetEvent Key)

structure AnnounceEvent (Key : Type) where
  time : ℕ
  step : AnnounceStep Key

/-- Enter the select with what the set-up has found, or leave with its error. -/
def afterSetUp (allowRelay : Bool) (time : ℕ) (stage : SetUpStage) :
    Poll SetUpStage ConnectError (Option IpAddr) →
      Option (AnnouncePhase Key)
  | .pending next => some (.settingUp next)
  | .ready (.error error) => some (.abandoned stage error)
  | .ready (.ok ownExtIp) =>
      some (.racing ⟨allowRelay, ownExtIp, time⟩ fun arm =>
        (announceArm ⟨allowRelay, ownExtIp, time⟩ arm).start)
  | .panicked => none

def nextPhase (allowRelay : Bool) (time : ℕ) :
    AnnouncePhase Key → AnnounceStep Key → Option (AnnouncePhase Key)
  | .settingUp stage, .setUp event =>
      (setUp stage event).bind (afterSetUp allowRelay time stage)
  | .racing setting slots, .arm arm event =>
      ((announceRace Key setting).machine.next slots
        ⟨arm, time, event⟩).map (.racing setting)
  | _, _ => none

/-- The clock does not go back. -/
def announce (Key : Type) (allowRelay : Bool) :
    Machine (AnnounceState Key) (AnnounceEvent Key) where
  start := fun s => s.now = s.called ∧ s.phase = .settingUp .lanConfig
  next := fun s event =>
    if s.now ≤ event.time then
      (nextPhase allowRelay event.time s.phase event.step).map fun phase =>
        ⟨s.called, event.time, phase⟩
    else none

/-- What the call has returned. -/
def AnnouncePhase.result : AnnouncePhase Key →
    Option (Except ConnectError (ConnectedSession Key))
  | .settingUp _ => none
  | .abandoned _ error => some (.error error)
  | .racing setting slots =>
      match (announceRace Key setting).settle slots with
      | .ready result => some result
      | _ => none

/-- The LAN endpoint could not be opened, or the accept loop has failed. -/
def AnnouncePhase.LanFailed : AnnouncePhase Key → Prop
  | .settingUp _ => False
  | .abandoned stage _ => stage.opensLan = true
  | .racing _ slots => (slots .lan).Failed

end Definitions

/-- An error comes only from a failed LAN path or after the code's expiry, and
a session from the arm that completed it. -/
structure AnnounceKept {Key : Type} (s : AnnounceState Key) : Prop where
  waits : ∀ error, s.phase.result = some (.error error) →
    s.phase.LanFailed ∨ codeExpiry s.called ≤ s.now
  completed : ∀ session, s.phase.result = some (.ok session) →
    ∃ setting slots arm, s.phase = .racing setting slots ∧
      slots arm = .ready (.ok session)

/-- Before the code's expiry and with the LAN path alive, a step of the internet
path fails: in the set-up, or in its arm once it has found a receiver. -/
def EndsWait {Key : Type} (s : AnnounceState Key)
    (event : AnnounceEvent Key) : Prop :=
  event.time < codeExpiry s.called ∧
  match s.phase, event.step with
  | .settingUp stage, .setUp net => stage.Fails net
  | .racing setting slots, .arm .internet net =>
      ¬ (slots .lan).Failed ∧
        ∃ stage, slots .internet = .pending stage ∧
          stage.Fails setting.allowRelay net
  | _, _ => False

section Steps

variable {Key : Type} {allowRelay : Bool}

theorem setUp_failed_iff {stage : SetUpStage} {event : NetEvent Key}
    {poll : Poll SetUpStage ConnectError (Option IpAddr)}
    (hsetUp : setUp stage event = some poll) :
    poll.Failed ∧ stage.opensLan = false ↔ stage.Fails event := by
  unfold setUp at hsetUp
  split at hsetUp <;> cases hsetUp <;>
    simp [Poll.Failed, SetUpStage.Fails, SetUpStage.opensLan]

theorem fallBack_failed_iff {Stage : Type} {text : String}
    {relaying : RelayStage → Stage} :
    (fallBack allowRelay text relaying :
      Poll Stage ConnectError (ConnectedSession Key)).Failed ↔
        allowRelay = false := by
  cases allowRelay <;> simp [fallBack, Poll.Failed]

theorem afterPunch_failed_iff {receiver : SocketAddr} {punch : PunchStage}
    {event : NetEvent Key} {punched : Poll PunchStage ConnectError Unit}
    (hpunch : holePunch receiver punch event = some punched) :
    (afterPunch allowRelay receiver punched :
      Poll AnnounceStage ConnectError (ConnectedSession Key)).Failed ↔
        (AnnounceStage.punching receiver punch).Fails allowRelay event := by
  unfold holePunch at hpunch
  split at hpunch
  · split at hpunch
    · cases hpunch
      simp [afterPunch, Poll.Failed, AnnounceStage.Fails]
    · cases hpunch
      simp [afterPunch, Poll.Failed, AnnounceStage.Fails]
  · cases hpunch
    simp [afterPunch, Poll.Failed, AnnounceStage.Fails]
  · cases hpunch
    exact fallBack_failed_iff
  · split at hpunch
    · cases hpunch
      simp [afterPunch, Poll.Failed, AnnounceStage.Fails]
    · cases hpunch
      simp [afterPunch, Poll.Failed, AnnounceStage.Fails]
  · contradiction

/-- The internet arm fails on the failures after it has found a receiver, and
where its poll has passed the deadline. -/
theorem internetAnnounce_failed {ownExtIp : Option IpAddr}
    {stage : AnnounceStage} {now : ℕ} {event : NetEvent Key}
    {poll : Poll AnnounceStage ConnectError (ConnectedSession Key)}
    (hresume : internetAnnounce allowRelay ownExtIp stage (now, event) =
      some poll) :
    (stage.Fails allowRelay event → poll.Failed) ∧
      (poll.Failed → stage.Fails allowRelay event ∨
        ∃ deadline, stage.deadline? = some deadline ∧ deadline ≤ now) := by
  unfold internetAnnounce at hresume
  split at hresume
  case h_1 =>
      split at hresume <;> cases hresume <;>
        simp [Poll.Failed, AnnounceStage.Fails]
  case h_2 deadline lastAnnounce now heq =>
      cases heq
      split at hresume
      next hlate =>
          cases hresume
          simp only [AnnounceStage.Fails, false_implies, true_and]
          intro _
          exact Or.inr ⟨deadline, rfl, hlate⟩
      next =>
          split at hresume <;> cases hresume <;>
            simp [Poll.Failed, AnnounceStage.Fails]
  case h_5 heq =>
      cases heq
      cases hresume
      rw [fallBack_failed_iff]
      exact ⟨id, Or.inl⟩
  case h_7 receiver punch _ inner heq =>
      cases heq
      obtain ⟨punched, hpunch, rfl⟩ := Option.map_eq_some_iff.mp hresume
      rw [afterPunch_failed_iff hpunch]
      exact ⟨id, Or.inl⟩
  case h_25 stage _ inner heq =>
      cases heq
      obtain ⟨relayed, hrelay, rfl⟩ := Option.map_eq_some_iff.mp hresume
      rw [Poll.mapStage_failed_iff, connectThroughRelay_failed_iff hrelay]
      exact ⟨id, Or.inl⟩
  case h_26 => contradiction
  all_goals
    rename_i heq
    cases heq
    cases hresume
    simp [Poll.Failed, AnnounceStage.Fails]

/-- The poll keeps its deadline, and no other stage has one. -/
theorem internetAnnounce_deadline {ownExtIp : Option IpAddr}
    {stage next : AnnounceStage} {event : ℕ × NetEvent Key} {deadline : ℕ}
    (hresume : internetAnnounce allowRelay ownExtIp stage event =
      some (.pending next)) (hdeadline : next.deadline? = some deadline) :
    stage.deadline? = some deadline := by
  unfold internetAnnounce at hresume
  split at hresume
  case h_1 =>
      split at hresume
      · cases hresume
        contradiction
      · cases hresume
        contradiction
  case h_2 =>
      split at hresume
      · cases hresume
      · split at hresume
        · cases hresume
          exact hdeadline
        · cases hresume
          exact hdeadline
  case h_3 =>
      cases hresume
      exact hdeadline
  case h_4 =>
      cases hresume
      exact hdeadline
  case h_5 =>
      unfold fallBack at hresume
      split at hresume
      · cases hresume
        contradiction
      · cases hresume
  case h_7 receiver punch _ inner =>
      obtain ⟨punched, _, hafter⟩ := Option.map_eq_some_iff.mp hresume
      unfold afterPunch at hafter
      split at hafter
      · cases hafter
        contradiction
      · cases hafter
        contradiction
      · unfold fallBack at hafter
        split at hafter
        · cases hafter
          contradiction
        · cases hafter
      · cases hafter
      · cases hafter
  case h_25 stage _ inner =>
      obtain ⟨relayed, _, hafter⟩ := Option.map_eq_some_iff.mp hresume
      cases relayed with
      | pending relay =>
          cases hafter
          contradiction
      | ready result => cases hafter
      | panicked => cases hafter
  all_goals cases hresume
  all_goals contradiction

/-! ## One step of the call -/

/-- What a step of the call can do: one step of the set-up, or one event of one
arm of a race that goes on. -/
theorem announce_next_cases {s t : AnnounceState Key}
    {event : AnnounceEvent Key}
    (hnext : (announce Key allowRelay).next s event = some t) :
    s.now ≤ event.time ∧ t.called = s.called ∧ t.now = event.time ∧
      ((∃ stage net poll, s.phase = .settingUp stage ∧
          event.step = .setUp net ∧ setUp stage net = some poll ∧
          afterSetUp allowRelay event.time stage poll = some t.phase) ∨
        ∃ setting slots arm net stage poll,
          s.phase = .racing setting slots ∧ event.step = .arm arm net ∧
          (∃ going,
            (announceRace Key setting).settle slots = .pending going) ∧
          slots arm = .pending stage ∧
          ((announceRace Key setting).arms arm).resume stage
            (event.time, net) = some poll ∧
          t.phase = .racing setting (Function.update slots arm poll)) := by
  obtain ⟨called, now, phase⟩ := s
  obtain ⟨time, step⟩ := event
  simp only [announce] at hnext
  split at hnext
  next hclock =>
      obtain ⟨after, hphase, rfl⟩ := Option.map_eq_some_iff.mp hnext
      refine ⟨hclock, rfl, rfl, ?_⟩
      unfold nextPhase at hphase
      split at hphase
      next stage net =>
          obtain ⟨poll, hsetUp, hafter⟩ := Option.bind_eq_some_iff.mp hphase
          exact Or.inl ⟨stage, net, poll, rfl, rfl, hsetUp, hafter⟩
      next setting slots arm net =>
          obtain ⟨slots', hrace, rfl⟩ := Option.map_eq_some_iff.mp hphase
          obtain ⟨hgoing, stage, poll, hslot, hresume, rfl⟩ :=
            Select.machine_next_eq_some.mp hrace
          exact Or.inr ⟨setting, slots, arm, net, stage, poll, rfl, rfl,
            hgoing, hslot, hresume, rfl⟩
      next => contradiction
  next => contradiction

/-- While the internet arm polls, its deadline is not before the expiry of the
code. -/
structure DeadlineKept (s : AnnounceState Key) : Prop where
  clock : s.called ≤ s.now
  poll : ∀ setting slots stage deadline, s.phase = .racing setting slots →
    slots .internet = .pending stage → stage.deadline? = some deadline →
    codeExpiry s.called ≤ deadline

theorem deadlineKept_of_reachable {s : AnnounceState Key}
    (hreach : (announce Key allowRelay).Reachable s) : DeadlineKept s := by
  apply hreach.invariant
  · rintro s₀ ⟨hclock, hphase⟩
    constructor
    · omega
    · intro setting slots stage deadline hracing
      rw [hphase] at hracing
      contradiction
  · intro u event v hu hnext
    obtain ⟨hclock, hcalled, hnow, hcases⟩ := announce_next_cases hnext
    have hlater : u.called ≤ event.time := Nat.le_trans hu.clock hclock
    constructor
    · omega
    · intro setting slots stage deadline hracing hslot hdeadline
      rw [hcalled]
      obtain ⟨before, net, poll, _, _, _, hafter⟩ |
        ⟨setting', slots', arm, net, before, poll, hphase, _, _, hbefore,
          hresume, hracing'⟩ := hcases
      · rw [hracing] at hafter
        unfold afterSetUp at hafter
        split at hafter
        · cases hafter
        · cases hafter
        · cases hafter
          cases hslot
          cases hdeadline
          exact codeExpiry_le_pollDeadline hlater
        · contradiction
      · rw [hracing] at hracing'
        cases hracing'
        cases arm with
        | lan =>
            have hne : RaceArm.internet ≠ RaceArm.lan := by decide
            rw [Function.update_of_ne hne] at hslot
            exact hu.poll setting slots' stage deadline hphase hslot hdeadline
        | internet =>
            rw [Function.update_self] at hslot
            subst hslot
            exact hu.poll setting slots' before deadline hphase hbefore
              (internetAnnounce_deadline hresume hdeadline)

theorem completed_of_settle {setting : AnnounceSetting}
    {slots : AnnounceSlots Key} {session : ConnectedSession Key}
    (hresult : (AnnouncePhase.racing setting slots).result =
      some (.ok session)) : ∃ arm, slots arm = .ready (.ok session) := by
  simp only [AnnouncePhase.result] at hresult
  split at hresult
  next result hsettle =>
      cases hresult
      obtain hslot | hbad := Select.ok_of_settle hsettle
      · exact hslot
      · contradiction
  next => contradiction

theorem racing_result_eq_error_iff {setting : AnnounceSetting}
    {slots : AnnounceSlots Key} {error : ConnectError} :
    (AnnouncePhase.racing setting slots).result = some (.error error) ↔
      (announceRace Key setting).settle slots = .ready (.error error) := by
  simp only [AnnouncePhase.result]
  split
  next result hsettle => simp [hsettle]
  next hsettle =>
      simp only [reduceCtorEq, false_iff]
      intro hready
      exact hsettle _ hready

theorem setUp_step_iff {s t : AnnounceState Key} {event : AnnounceEvent Key}
    {stage : SetUpStage} {net : NetEvent Key}
    {poll : Poll SetUpStage ConnectError (Option IpAddr)}
    (hcalled : t.called = s.called) (hnow : t.now = event.time)
    (hphase : s.phase = .settingUp stage) (hstep : event.step = .setUp net)
    (hsetUp : setUp stage net = some poll)
    (hafter : afterSetUp allowRelay event.time stage poll = some t.phase) :
    AnnounceKept t ↔ ¬ EndsWait s event := by
  have hfails := setUp_failed_iff hsetUp
  have hends : EndsWait s event ↔ event.time < codeExpiry s.called ∧
      poll.Failed ∧ stage.opensLan = false := by
    simp only [EndsWait, hphase, hstep, hfails]
  rw [hends]
  unfold afterSetUp at hafter
  split at hafter
  next next =>
      have hnext := Option.some.inj hafter
      have hkept : AnnounceKept t := by
        constructor
        · intro error herror
          rw [← hnext] at herror
          contradiction
        · intro session hsession
          rw [← hnext] at hsession
          contradiction
      simp [hkept, Poll.Failed]
  next error =>
      have habandoned := Option.some.inj hafter
      simp only [Poll.Failed, true_and, not_and, Bool.not_eq_false]
      constructor
      · intro hkept hearly
        obtain hopens | hlate :=
          hkept.waits error (by rw [← habandoned]; rfl)
        · rw [← habandoned] at hopens
          exact hopens
        · rw [hcalled, hnow] at hlate
          omega
      · intro hopens
        constructor
        · intro _ _
          by_cases hearly : event.time < codeExpiry s.called
          · left
            rw [← habandoned]
            exact hopens hearly
          · right
            rw [hcalled, hnow]
            omega
        · intro session hsession
          rw [← habandoned] at hsession
          cases hsession
  next ownExtIp =>
      have hracing := Option.some.inj hafter
      have hkept : AnnounceKept t := by
        constructor
        · intro error herror
          rw [← hracing, racing_result_eq_error_iff] at herror
          obtain ⟨arm, _, hslot⟩ | hfailed := Select.error_of_settle herror
          · cases arm with
            | lan => cases hslot
            | internet => cases hslot
          · exact absurd (hfailed .lan) not_false
        · intro session hsession
          rw [← hracing] at hsession
          obtain ⟨arm, hslot⟩ := completed_of_settle hsession
          cases arm with
          | lan => cases hslot
          | internet => cases hslot
      simp [hkept, Poll.Failed]
  next => contradiction

theorem race_step_iff {s t : AnnounceState Key} {event : AnnounceEvent Key}
    {setting : AnnounceSetting} {slots : AnnounceSlots Key} {arm : RaceArm}
    {net : NetEvent Key} {stage : AnnounceArmStage arm}
    {poll : Poll (AnnounceArmStage arm) ConnectError (ConnectedSession Key)}
    (hdeadline : DeadlineKept s) (hcalled : t.called = s.called)
    (hnow : t.now = event.time) (hphase : s.phase = .racing setting slots)
    (hstep : event.step = .arm arm net)
    (hgoing : ∃ going,
      (announceRace Key setting).settle slots = .pending going)
    (hslot : slots arm = .pending stage)
    (hresume : ((announceRace Key setting).arms arm).resume stage
      (event.time, net) = some poll)
    (hracing : t.phase = .racing setting (Function.update slots arm poll)) :
    AnnounceKept t ↔ ¬ EndsWait s event := by
  obtain ⟨going, hgoing⟩ := hgoing
  have hkept : AnnounceKept t ↔ ∀ error,
      (announceRace Key setting).settle (Function.update slots arm poll) =
        .ready (.error error) →
      (Function.update slots arm poll .lan).Failed ∨
        codeExpiry s.called ≤ event.time := by
    constructor
    · intro hkept error herror
      have hwaits := hkept.waits error
        (by rw [hracing, racing_result_eq_error_iff]; exact herror)
      rw [hracing, hcalled, hnow] at hwaits
      exact hwaits
    · intro hwaits
      constructor
      · intro error herror
        rw [hracing, racing_result_eq_error_iff] at herror
        rw [hracing, hcalled, hnow]
        exact hwaits error herror
      · intro session hsession
        rw [hracing] at hsession
        obtain ⟨winner, hwinner⟩ := completed_of_settle hsession
        exact ⟨setting, _, winner, hracing, hwinner⟩
  rw [hkept]
  cases arm with
  | lan =>
      have hends : ¬ EndsWait s event := by
        simp [EndsWait, hphase, hstep]
      simp only [hends, not_false_eq_true, iff_true]
      intro error herror
      obtain ⟨winner, hmust, hwinner⟩ | hfailed := Select.error_of_settle herror
      · cases winner with
        | lan => contradiction
        | internet =>
            have hne : RaceArm.internet ≠ RaceArm.lan := by decide
            rw [Function.update_of_ne hne] at hwinner
            have hnone := Select.verdict_eq_none_of_pending hgoing .internet
            simp [Select.verdict, hwinner, hmust] at hnone
      · exact Or.inl (hfailed .lan)
  | internet =>
      have hne : RaceArm.lan ≠ RaceArm.internet := by decide
      obtain ⟨hfails, hpoll⟩ := internetAnnounce_failed hresume
      have hends : EndsWait s event ↔ event.time < codeExpiry s.called ∧
          ¬ (slots .lan).Failed ∧ stage.Fails setting.allowRelay net := by
        simp [EndsWait, hphase, hstep, hslot]
      rw [hends, Function.update_of_ne hne]
      constructor
      · rintro hwaits ⟨hearly, halive, hstage⟩
        obtain ⟨error, rfl⟩ := Poll.failed_iff.mp (hfails hstage)
        have hone : (announceRace Key setting).OneDecides
            (Function.update slots .internet (.ready (.error error))) :=
          Select.OneDecides.update (Select.verdict_eq_none_of_pending hgoing)
        have hsettle := hone.settle_error rfl (Function.update_self ..)
        obtain hfailed | hlate := hwaits error hsettle
        · exact halive hfailed
        · omega
      · intro hspared error herror
        by_cases hearly : codeExpiry s.called ≤ event.time
        · exact Or.inr hearly
        by_cases halive : (slots .lan).Failed
        · exact Or.inl halive
        exfalso
        obtain ⟨winner, hmust, hwinner⟩ | hfailed :=
          Select.error_of_settle herror
        · cases winner with
          | lan => contradiction
          | internet =>
              rw [Function.update_self] at hwinner
              subst hwinner
              obtain hstage | ⟨deadline, hd, hlate⟩ := hpoll trivial
              · exact hspared ⟨by omega, halive, hstage⟩
              · have hkeeps := hdeadline.poll setting slots stage deadline
                  hphase hslot hd
                omega
        · have hlan := hfailed .lan
          rw [Function.update_of_ne hne] at hlan
          exact halive hlan

theorem announce_step_iff {s t : AnnounceState Key}
    {event : AnnounceEvent Key}
    (hreach : (announce Key allowRelay).Reachable s)
    (hnext : (announce Key allowRelay).next s event = some t) :
    AnnounceKept t ↔ ¬ EndsWait s event := by
  obtain ⟨_, hcalled, hnow, hcases⟩ := announce_next_cases hnext
  obtain ⟨stage, net, poll, hphase, hstep, hsetUp, hafter⟩ |
    ⟨setting, slots, arm, net, stage, poll, hphase, hstep, hgoing, hslot,
      hresume, hracing⟩ := hcases
  · exact setUp_step_iff hcalled hnow hphase hstep hsetUp hafter
  · exact race_step_iff (deadlineKept_of_reachable hreach) hcalled hnow hphase
      hstep hgoing hslot hresume hracing

/-- In every run of the call, with relay or without: an error is returned only
from a failed LAN path or after the code's expiry, and a session only from the
arm that completed it, exactly when no step of the run is a failure of the
internet path before the expiry with the LAN path alive. -/
theorem announce_waits_iff {history : List (AnnounceState Key × AnnounceEvent Key)}
    {s : AnnounceState Key}
    (hexec : (announce Key allowRelay).Execution history s) :
    Machine.Throughout AnnounceKept history s ↔
      ∀ entry ∈ history, ¬ EndsWait entry.1 entry.2 := by
  have hstart : ∀ s₀, (announce Key allowRelay).start s₀ →
      AnnounceKept s₀ := by
    rintro s₀ ⟨_, hphase⟩
    constructor
    · intro error herror
      rw [hphase] at herror
      contradiction
    · intro session hsession
      rw [hphase] at hsession
      contradiction
  have hstep : ∀ u event v, (announce Key allowRelay).Reachable u →
      AnnounceKept u → (announce Key allowRelay).next u event = some v →
      (AnnounceKept v ↔ ¬ EndsWait u event) :=
    fun _ _ _ hreach _ hnext => announce_step_iff hreach hnext
  exact hexec.throughout_iff hstart hstep

end Steps

/-! ## A stale peer on the DHT -/

namespace StalePeer

def peer : SocketAddr :=
  ⟨.v4 198 51 100 7, 6881⟩

def setUpSteps : List (NetEvent Unit) :=
  [.done, .done, .localPort 50000, .done, .done, .done, .done, .done, .done,
    .localPort 50001, .external none, .done]

/-- The LAN peer has its stream and is in the handshake when the hole punch
toward the stale peer times out. -/
def events : List (AnnounceEvent Unit) :=
  setUpSteps.map (fun net => ⟨0, .setUp net⟩) ++
    [⟨500, .arm .internet (.peers [peer])⟩, ⟨900, .arm .internet .done⟩,
      ⟨34000, .arm .lan .incoming⟩, ⟨34100, .arm .lan .done⟩,
      ⟨34200, .arm .lan .done⟩, ⟨34300, .arm .lan .done⟩,
      ⟨35900, .arm .internet .elapsed⟩]

/-- The call has failed, with time left and the LAN arm in its handshake. -/
def cutShort (s : AnnounceState Unit) : Bool :=
  (match s.phase.result with
    | some (.error error) =>
        error == .connectionFailed "hole punch timed out and relay is disabled"
    | _ => false) &&
  (match s.phase with
    | .racing _ slots =>
        match slots .lan with
        | .pending stage => stage == .handshake
        | _ => false
    | _ => false) &&
  decide (s.now < codeExpiry s.called)

theorem of_cutShort {s : AnnounceState Unit} (hcut : cutShort s = true) :
    (∃ error, s.phase.result = some (.error error)) ∧
      (∃ setting slots, s.phase = .racing setting slots ∧
        slots .lan = .pending .handshake) ∧
      s.now < codeExpiry s.called := by
  simp only [cutShort, Bool.and_eq_true, decide_eq_true_eq] at hcut
  obtain ⟨⟨hresult, hphase⟩, hearly⟩ := hcut
  split at hresult
  next error herror =>
      split at hphase
      next setting slots hracing =>
          split at hphase
          next stage hslot =>
              rw [beq_iff_eq] at hphase
              subst hphase
              exact ⟨⟨error, herror⟩, ⟨setting, slots, hracing, hslot⟩, hearly⟩
          next => contradiction
      next => contradiction
  next => contradiction

theorem not_kept {s : AnnounceState Unit} (hcut : cutShort s = true) :
    ¬ AnnounceKept s := by
  obtain ⟨⟨error, herror⟩, ⟨setting, slots, hracing, hslot⟩, hearly⟩ :=
    of_cutShort hcut
  intro hkept
  obtain hfailed | hlate := hkept.waits error herror
  · rw [hracing] at hfailed
    simp [AnnouncePhase.LanFailed, hslot, Poll.Failed] at hfailed
  · omega

theorem reaches : ∃ s, (announce Unit false).Reachable s ∧
    cutShort s = true := by
  have hrun : ((announce Unit false).runFrom ⟨0, 0, .settingUp .lanConfig⟩
      events).map cutShort = some true := by
    decide +kernel
  obtain ⟨s, hs, hcut⟩ := Option.map_eq_some_iff.mp hrun
  exact ⟨s, Machine.Reachable.of_runFrom ⟨rfl, rfl⟩ hs, hcut⟩

end StalePeer

open StalePeer in
theorem announce_waits_sample : ∃ history s,
    (announce Unit false).Execution history s ∧
      ∃ entry ∈ history, EndsWait entry.1 entry.2 := by
  obtain ⟨s, hreach, hcut⟩ := reaches
  obtain ⟨history, hexec⟩ := hreach.execution
  have hiff := announce_waits_iff hexec
  refine ⟨history, s, hexec, ?_⟩
  by_contra hnone
  push Not at hnone
  exact not_kept hcut (hiff.mpr hnone).1

open StalePeer in
/-- A hole punch toward a stale peer fails the call while the accept loop is in
a handshake and the code is still valid. -/
theorem internet_failure_ends_wait : ∃ s,
    (announce Unit false).Reachable s ∧
      (∃ error, s.phase.result = some (.error error)) ∧
      (∃ setting slots, s.phase = .racing setting slots ∧
        slots .lan = .pending .handshake) ∧
      s.now < codeExpiry s.called := by
  obtain ⟨s, hreach, hcut⟩ := reaches
  exact ⟨s, hreach, of_cutShort hcut⟩

end P2pShare
