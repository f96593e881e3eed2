import P2pShare.AnnounceRace
import P2pShare.SenderIdentity

/-!
# The two ends of one connection

A sender's call and a receiver's lookup of the same code, with nobody else on
it.  The receiver's LAN dial, its dial through the punched hole and its relay
connection are the three connections there can be; on each the two sides run
`perform_handshake`, whose frames are counted byte by byte, and each side may
have several handshakes half done.

The initiator returns in the very step that writes the last byte of its last
frame, so no second connection can carry a whole handshake.
-/

namespace P2pShare

open RacingFutures TransitionMachine

/-! ## The handshake -/

inductive HandshakeRole where
  | initiator
  | responder
  deriving DecidableEq

/-- The frames are numbered from 0; `moved` bytes of this one have been written,
or read. -/
structure HandshakeStage where
  turn : ℕ
  moved : ℕ
  deriving DecidableEq

namespace HandshakeStage

/-- A Noise message behind its length of two bytes. -/
def frameLength (body : ℕ → ℕ) (turn : ℕ) : ℕ :=
  2 + body turn

/-- The initiator writes the frames 0 and 2, the responder the frame 1. -/
def isMyTurn (role : HandshakeRole) (turn : ℕ) : Bool :=
  match role with
  | .initiator => turn % 2 == 0
  | .responder => turn % 2 == 1

def isHandshakeFinished (stage : HandshakeStage) : Bool :=
  stage.turn == 3

def start : HandshakeStage :=
  ⟨0, 0⟩

/-- Write or read `count` more bytes of the frame. -/
def move (body : ℕ → ℕ) (stage : HandshakeStage) (count : ℕ) :
    HandshakeStage :=
  if stage.moved + count = frameLength body stage.turn then
    ⟨stage.turn + 1, 0⟩
  else ⟨stage.turn, stage.moved + count⟩

/-- The bytes of the initiator's frames that lie before this point. -/
def fromInitiator (body : ℕ → ℕ) (stage : HandshakeStage) : ℕ :=
  match stage.turn with
  | 0 => stage.moved
  | 1 => frameLength body 0
  | 2 => frameLength body 0 + stage.moved
  | _ => frameLength body 0 + frameLength body 2

/-- The bytes of the responder's frame that lie before this point. -/
def fromResponder (body : ℕ → ℕ) (stage : HandshakeStage) : ℕ :=
  match stage.turn with
  | 0 => 0
  | 1 => stage.moved
  | _ => frameLength body 1

/-- The bytes can be moved: the frame has as many left, and those to be read
have been written at the other end. -/
def Movable (body : ℕ → ℕ) (role : HandshakeRole)
    (stage peer : HandshakeStage) (count : ℕ) : Prop :=
  stage.turn < 3 ∧ 0 < count ∧
    stage.moved + count ≤ frameLength body stage.turn ∧
    (isMyTurn role stage.turn = false →
      match role with
      | .initiator =>
          (stage.move body count).fromResponder body ≤ peer.fromResponder body
      | .responder =>
          (stage.move body count).fromInitiator body ≤ peer.fromInitiator body)

instance (body : ℕ → ℕ) (role : HandshakeRole)
    (stage peer : HandshakeStage) (count : ℕ) :
    Decidable (Movable body role stage peer count) := by
  unfold Movable
  cases role <;> infer_instance

/-- The point lies within its frame. -/
structure Within (body : ℕ → ℕ) (stage : HandshakeStage) : Prop where
  turn : stage.turn ≤ 3
  moved : stage.moved < frameLength body stage.turn

variable {body : ℕ → ℕ} {stage peer : HandshakeStage} {count : ℕ}

theorem frameLength_pos (body : ℕ → ℕ) (turn : ℕ) :
    0 < frameLength body turn := by
  unfold frameLength
  omega

theorem within_start : Within body start :=
  ⟨Nat.zero_le 3, frameLength_pos body 0⟩

theorem Within.move {role : HandshakeRole}
    (hmovable : Movable body role stage peer count) :
    Within body (stage.move body count) := by
  obtain ⟨hturn, _, hleft, _⟩ := hmovable
  unfold HandshakeStage.move
  split
  · constructor
    · dsimp only
      omega
    · exact frameLength_pos body _
  · constructor
    · dsimp only
      omega
    · dsimp only
      omega

/-- Only a finished handshake has all the bytes of the initiator's frames before
it. -/
theorem Within.finished (hwithin : Within body stage)
    (hall : frameLength body 0 + frameLength body 2 ≤
      stage.fromInitiator body) : stage.isHandshakeFinished = true := by
  obtain ⟨turn, moved⟩ := stage
  obtain ⟨hturn, hmoved⟩ := hwithin
  simp only [isHandshakeFinished, beq_iff_eq]
  dsimp only at hturn hmoved
  have hcases : turn = 0 ∨ turn = 1 ∨ turn = 2 ∨ turn = 3 := by omega
  obtain rfl | rfl | rfl | rfl := hcases
  · simp only [fromInitiator] at hall
    simp only [frameLength] at hall hmoved
    omega
  · simp only [fromInitiator, frameLength] at hall
    omega
  · simp only [fromInitiator, frameLength] at hall hmoved
    omega
  · rfl

theorem fromInitiator_of_finished
    (hfinished : stage.isHandshakeFinished = true) :
    stage.fromInitiator body = frameLength body 0 + frameLength body 2 := by
  have hturn : stage.turn = 3 := by simpa [isHandshakeFinished] using hfinished
  simp [fromInitiator, hturn]

/-- The points of a handshake are passed in order. -/
theorem fromInitiator_le_move {role : HandshakeRole}
    (hmovable : Movable body role stage peer count) :
    stage.fromInitiator body ≤ (stage.move body count).fromInitiator body := by
  obtain ⟨turn, moved⟩ := stage
  obtain ⟨hturn, _, hleft, _⟩ := hmovable
  dsimp only at hturn hleft
  have hcases : turn = 0 ∨ turn = 1 ∨ turn = 2 := by omega
  obtain rfl | rfl | rfl := hcases
  · unfold HandshakeStage.move
    split
    · simp only [fromInitiator]
      omega
    · simp [fromInitiator]
  · unfold HandshakeStage.move
    split
    · simp [fromInitiator]
    · simp [fromInitiator]
  · unfold HandshakeStage.move
    split
    · simp only [fromInitiator]
      omega
    · simp [fromInitiator]

/-- The responder stays behind what the initiator has written. -/
theorem responder_move_le
    (hmovable : Movable body .responder stage peer count)
    (hbehind : stage.fromInitiator body ≤ peer.fromInitiator body) :
    (stage.move body count).fromInitiator body ≤ peer.fromInitiator body := by
  by_cases hmine : isMyTurn .responder stage.turn = false
  · exact hmovable.2.2.2 hmine
  · obtain ⟨turn, moved⟩ := stage
    have hodd : turn % 2 = 1 := by simpa [isMyTurn] using hmine
    have hturn := hmovable.1
    dsimp only at hturn
    have hone : turn = 1 := by omega
    subst hone
    unfold HandshakeStage.move
    split
    · simpa [fromInitiator] using hbehind
    · simpa [fromInitiator] using hbehind

end HandshakeStage

/-! ## The pair -/

/-- The connections, by what the receiver does to open them. -/
inductive Link where
  | lan
  | internet
  | relay
  deriving DecidableEq

namespace Link

/-- The receiver's arm that opens the connection. -/
def arm : Link → RaceArm
  | lan => .lan
  | internet => .internet
  | relay => .internet

/-- The session on this connection with this peer. -/
def session {Key : Type} (link : Link) (remotePubkey : Key) :
    ConnectedSession Key :=
  match link with
  | relay => .relay remotePubkey
  | _ => .direct remotePubkey

end Link

/-- Two calls with one code. -/
structure PairSetting (Key : Type) where
  senderKey : Key
  receiverKey : Key
  announceRelay : Bool
  lookup : LookupSetting
  /-- The lengths of the Noise messages. -/
  body : ℕ → ℕ

structure PairState (Key : Type) where
  sender : AnnounceState Key
  receiver : LookupSlots Key
  /-- The receiver's handshake on each connection. -/
  initiator : Link → HandshakeStage
  /-- The sender's handshake on each connection. -/
  responder : Link → HandshakeStage
  /-- The QUIC connections that the sender has accepted. -/
  accepted : Link → Bool
  /-- The last connection that each arm of the sender has accepted. -/
  current : RaceArm → Option Link
  /-- The connection of the session that the sender has returned. -/
  senderConn : Option Link
  receiverConn : Option Link

inductive PairEvent (Key : Type) where
  /-- Any event of the sender but an accept or the end of a handshake. -/
  | sender (event : AnnounceEvent Key)
  | accept (arm : RaceArm) (link : Link) (time : ℕ)
  | respond (arm : RaceArm) (count time : ℕ)
  /-- Any event of the receiver but the end of a handshake. -/
  | receiver (event : Σ arm, LookupArmEvent Key arm)
  | initiate (link : Link) (count now : ℕ)

section Definitions

variable {Key : Type}

/-- The event is one that the pair's other steps stand for. -/
def AnnounceEvent.joint (event : AnnounceEvent Key) : Bool :=
  match event.step with
  | .arm _ .incoming => true
  | .arm _ (.handshaken _) => true
  | _ => false

/-- The connection on which this arm of the sender is in its handshake. -/
def PairState.responding (s : PairState Key) (arm : RaceArm) : Option Link :=
  match s.sender.phase with
  | .racing _ slots =>
      match arm with
      | .lan =>
          match slots .lan with
          | .pending .handshake => s.current .lan
          | _ => none
      | .internet =>
          match slots .internet with
          | .pending .handshake => s.current .internet
          | .pending (.relaying .handshake) => some .relay
          | _ => none
  | _ => none

/-- The receiver's arm is in its handshake on this connection. -/
def PairState.initiating (s : PairState Key) : Link → Bool
  | .lan =>
      match s.receiver .lan with
      | .pending (.inr .handshake) => true
      | _ => false
  | .internet =>
      match s.receiver .internet with
      | .pending (.dialing .handshake) => true
      | _ => false
  | .relay =>
      match s.receiver .internet with
      | .pending (.relaying .handshake) => true
      | _ => false

/-- The event that ends the receiver's handshake on this connection. -/
def Link.initiated (link : Link) (now : ℕ) (key : Key) :
    Σ arm, LookupArmEvent Key arm :=
  match link with
  | .lan => ⟨.lan, .inr (.handshaken key)⟩
  | _ => ⟨.internet, (now, .handshaken key)⟩

open HandshakeStage in
def PairState.respond (setting : PairSetting Key) (s : PairState Key)
    (arm : RaceArm) (count time : ℕ) : Option (PairState Key) :=
  match s.responding arm with
  | none => none
  | some link =>
      if Movable setting.body .responder (s.responder link) (s.initiator link)
          count then
        let stage := (s.responder link).move setting.body count
        let moved := { s with
          responder := Function.update s.responder link stage }
        if stage.isHandshakeFinished then
          ((announce Key setting.announceRelay).next s.sender
            ⟨time, .arm arm (.handshaken setting.receiverKey)⟩).map
              fun sender => { moved with sender, senderConn := some link }
        else some moved
      else none

open HandshakeStage in
def PairState.initiate (setting : PairSetting Key) (s : PairState Key)
    (link : Link) (count now : ℕ) : Option (PairState Key) :=
  if s.initiating link ∧
      Movable setting.body .initiator (s.initiator link) (s.responder link)
        count then
    let stage := (s.initiator link).move setting.body count
    let moved := { s with
      initiator := Function.update s.initiator link stage }
    if stage.isHandshakeFinished then
      ((lookupAndConnect Key setting.lookup).machine.next s.receiver
        (link.initiated now setting.senderKey)).map
          fun receiver => { moved with receiver, receiverConn := some link }
    else some moved
  else none

/-- Both calls, in any order of their events. -/
def pair (setting : PairSetting Key) :
    Machine (PairState Key) (PairEvent Key) where
  start := fun s =>
    (announce Key setting.announceRelay).start s.sender ∧
      (lookupAndConnect Key setting.lookup).machine.start s.receiver ∧
      s.initiator = (fun _ => .start) ∧ s.responder = (fun _ => .start) ∧
      s.accepted = (fun _ => false) ∧ s.current = (fun _ => none) ∧
      s.senderConn = none ∧ s.receiverConn = none
  next := fun s event =>
    match event with
    | .sender event =>
        if event.joint then none
        else ((announce Key setting.announceRelay).next s.sender event).map
          fun sender => { s with sender }
    | .accept arm link time =>
        if link ≠ .relay ∧ s.accepted link = false then
          ((announce Key setting.announceRelay).next s.sender
            ⟨time, .arm arm .incoming⟩).map fun sender => { s with
              sender
              accepted := Function.update s.accepted link true
              current := Function.update s.current arm (some link) }
        else none
    | .respond arm count time => s.respond setting arm count time
    | .receiver event =>
        if (LookupArmEvent.presented event).isSome then none
        else ((lookupAndConnect Key setting.lookup).machine.next s.receiver
          event).map fun receiver => { s with receiver }
    | .initiate link count now => s.initiate setting link count now

end Definitions

/-! ## What ends a handshake -/

section Ends

variable {Key : Type}

theorem lanAccept_ok {stage : AcceptStage} {event : NetEvent Key}
    {session : ConnectedSession Key}
    (hresume : lanAccept stage event = some (.ready (.ok session))) :
    ∃ key, event = .handshaken key ∧ stage = .handshake ∧
      session = .direct key := by
  unfold lanAccept at hresume
  split at hresume
  case h_9 key =>
      cases hresume
      exact ⟨key, rfl, rfl, rfl⟩
  all_goals cases hresume

theorem connectThroughRelay_ok {stage : RelayStage} {event : NetEvent Key}
    {session : ConnectedSession Key}
    (hrelay : connectThroughRelay stage event = some (.ready (.ok session))) :
    ∃ key, event = .handshaken key ∧ stage = .handshake ∧
      session = .relay key := by
  unfold connectThroughRelay at hrelay
  split at hrelay
  case h_5 => split at hrelay <;> cases hrelay
  case h_8 key =>
      cases hrelay
      exact ⟨key, rfl, rfl, rfl⟩
  all_goals cases hrelay

/-- The sender's internet arm ends in a session only on its handshakes. -/
theorem internetAnnounce_ok {allowRelay : Bool} {ownExtIp : Option IpAddr}
    {stage : AnnounceStage} {now : ℕ} {event : NetEvent Key}
    {session : ConnectedSession Key}
    (hresume : internetAnnounce allowRelay ownExtIp stage (now, event) =
      some (.ready (.ok session))) :
    ∃ key, event = .handshaken key ∧
      (stage = .handshake ∧ session = .direct key ∨
        stage = .relaying .handshake ∧ session = .relay key) := by
  unfold internetAnnounce at hresume
  split at hresume
  case h_1 => split at hresume <;> cases hresume
  case h_2 =>
      split at hresume
      · cases hresume
      · split at hresume <;> cases hresume
  case h_5 =>
      exact absurd (Option.some.inj hresume) (fallBack_ne_ok session)
  case h_7 receiver punch _ inner heq =>
      obtain ⟨punched, _, hafter⟩ := Option.map_eq_some_iff.mp hresume
      unfold afterPunch at hafter
      split at hafter
      · cases hafter
      · cases hafter
      · exact absurd hafter (fallBack_ne_ok session)
      · cases hafter
      · cases hafter
  case h_23 key heq =>
      cases heq
      cases hresume
      exact ⟨key, rfl, Or.inl ⟨rfl, rfl⟩⟩
  case h_25 stage _ inner heq =>
      cases heq
      obtain ⟨relayed, hrelay, hafter⟩ := Option.map_eq_some_iff.mp hresume
      cases relayed with
      | pending next => cases hafter
      | ready result =>
          cases hafter
          obtain ⟨key, hevent, hstage, hsession⟩ :=
            connectThroughRelay_ok hrelay
          exact ⟨key, hevent, Or.inr ⟨by rw [hstage], hsession⟩⟩
      | panicked => cases hafter
  all_goals cases hresume

/-- The handshake that this arm of the sender was in, and the session it gives. -/
def EndsIn (before : AnnounceSlots Key) (key : Key)
    (session : ConnectedSession Key) : RaceArm → Prop
  | .lan => before .lan = .pending .handshake ∧ session = .direct key
  | .internet =>
      before .internet = .pending .handshake ∧ session = .direct key ∨
        before .internet = .pending (.relaying .handshake) ∧
          session = .relay key

/-- An arm of the sender that has a session got it in the last step, and was in
its handshake before. -/
theorem announce_completed {allowRelay : Bool} {s t : AnnounceState Key}
    {event : AnnounceEvent Key} {setting : AnnounceSetting}
    {slots : AnnounceSlots Key} {arm : RaceArm} {session : ConnectedSession Key}
    (hnext : (announce Key allowRelay).next s event = some t)
    (hphase : t.phase = .racing setting slots)
    (hslot : slots arm = .ready (.ok session)) :
    ∃ key before, event.step = .arm arm (.handshaken key) ∧
      s.phase = .racing setting before ∧ EndsIn before key session arm := by
  obtain ⟨_, _, _, hcases⟩ := announce_next_cases hnext
  obtain ⟨stage, net, poll, _, _, _, hafter⟩ |
    ⟨setting', before, moved, net, stage, poll, hbefore, hstep, ⟨_, hgoing⟩,
      hpending, hresume, hracing⟩ := hcases
  · rw [hphase] at hafter
    unfold afterSetUp at hafter
    split at hafter
    · cases hafter
    · cases hafter
    · cases hafter
      cases arm with
      | lan => cases hslot
      | internet => cases hslot
    · contradiction
  · rw [hphase] at hracing
    cases hracing
    have hmoved : arm = moved := by
      by_contra hne
      rw [Function.update_of_ne hne] at hslot
      have hnone := Select.verdict_eq_none_of_pending hgoing arm
      rw [Select.verdict_eq_ok hslot] at hnone
      contradiction
    subst hmoved
    rw [Function.update_self] at hslot
    subst hslot
    cases arm with
    | lan =>
        obtain ⟨key, rfl, rfl, rfl⟩ := lanAccept_ok hresume
        exact ⟨key, before, hstep, hbefore, hpending, rfl⟩
    | internet =>
        obtain ⟨key, rfl, hends⟩ := internetAnnounce_ok hresume
        refine ⟨key, before, hstep, hbefore, ?_⟩
        obtain ⟨rfl, rfl⟩ | ⟨rfl, rfl⟩ := hends
        · exact Or.inl ⟨hpending, rfl⟩
        · exact Or.inr ⟨hpending, rfl⟩

/-- No arm of a lookup that takes a step has a session yet. -/
theorem lookup_running {setting : LookupSetting} {slots after : LookupSlots Key}
    {event : Σ arm, LookupArmEvent Key arm}
    (hnext : (lookupAndConnect Key setting).machine.next slots event =
      some after) (arm : RaceArm) (session : ConnectedSession Key) :
    slots arm ≠ .ready (.ok session) := by
  intro hslot
  obtain ⟨⟨_, hgoing⟩, _⟩ := Select.machine_next_eq_some.mp hnext
  have hnone := Select.verdict_eq_none_of_pending hgoing arm
  rw [Select.verdict_eq_ok hslot] at hnone
  contradiction

/-- An arm of the lookup that has a session got it in the last step. -/
theorem lookup_completed {setting : LookupSetting}
    {slots after : LookupSlots Key} {event : Σ arm, LookupArmEvent Key arm}
    {arm : RaceArm} {session : ConnectedSession Key}
    (hnext : (lookupAndConnect Key setting).machine.next slots event =
      some after) (hslot : after arm = .ready (.ok session)) :
    event.1 = arm ∧
      LookupArmEvent.presented event = some session.remotePubkey := by
  have hrunning := lookup_running hnext
  obtain ⟨_, stage, poll, _, hresume, rfl⟩ :=
    Select.machine_next_eq_some.mp hnext
  have hmoved : arm = event.1 := by
    by_contra hne
    rw [Function.update_of_ne hne] at hslot
    exact hrunning arm session hslot
  subst hmoved
  rw [Function.update_self] at hslot
  exact ⟨rfl, (lookup_endsByHandshake hresume).key session hslot⟩

/-- The step that ends the receiver's handshake on a connection leaves the
session on it. -/
theorem lookup_initiated {setting : LookupSetting} {s : PairState Key}
    {after : LookupSlots Key} {link : Link} {now : ℕ} {key : Key}
    (hinitiating : s.initiating link = true)
    (hnext : (lookupAndConnect Key setting).machine.next s.receiver
      (link.initiated now key) = some after) :
    after link.arm = .ready (.ok (link.session key)) := by
  obtain ⟨_, stage, poll, hpending, hresume, rfl⟩ :=
    Select.machine_next_eq_some.mp hnext
  cases link with
  | lan =>
      simp only [PairState.initiating] at hinitiating
      split at hinitiating
      next hslot =>
          have hstage : stage = .inr .handshake := by
            have heq := hpending.symm.trans hslot
            cases heq
            rfl
          subst hstage
          cases hresume
          exact Function.update_self ..
      next => contradiction
  | internet =>
      simp only [PairState.initiating] at hinitiating
      split at hinitiating
      next hslot =>
          have hstage : stage = .dialing .handshake := by
            have heq := hpending.symm.trans hslot
            cases heq
            rfl
          subst hstage
          cases hresume
          exact Function.update_self ..
      next => contradiction
  | relay =>
      simp only [PairState.initiating] at hinitiating
      split at hinitiating
      next hslot =>
          have hstage : stage = .relaying .handshake := by
            have heq := hpending.symm.trans hslot
            cases heq
            rfl
          subst hstage
          cases hresume
          exact Function.update_self ..
      next => contradiction

end Ends

/-! ## Agreement -/

/-- A whole handshake of the initiator is on the connection of the receiver's
session, and a whole one of the responder on that of the sender's. -/
structure PairSound {Key : Type} (setting : PairSetting Key)
    (s : PairState Key) : Prop where
  within : ∀ link, (s.initiator link).Within setting.body
  behind : ∀ link, (s.responder link).fromInitiator setting.body ≤
    (s.initiator link).fromInitiator setting.body
  current : ∀ arm link, s.current arm = some link → link ≠ .relay
  initiated : ∀ link, (s.initiator link).isHandshakeFinished = true →
    s.receiverConn = some link ∧
      s.receiver link.arm = .ready (.ok (link.session setting.senderKey))
  received : ∀ arm session, s.receiver arm = .ready (.ok session) →
    ∃ link, s.receiverConn = some link ∧
      session = link.session setting.senderKey
  announced : ∀ racing slots arm session,
    s.sender.phase = .racing racing slots →
    slots arm = .ready (.ok session) →
    ∃ link, s.senderConn = some link ∧
      (s.responder link).isHandshakeFinished = true ∧
      session = link.session setting.receiverKey

section Runs

variable {Key : Type} {setting : PairSetting Key} {s t : PairState Key}

theorem pairSound_start (hstart : (pair setting).start s) :
    PairSound setting s := by
  obtain ⟨⟨_, hphase⟩, hreceiver, hinitiator, hresponder, _, hcurrent, _, _⟩ :=
    hstart
  constructor
  · intro link
    rw [hinitiator]
    exact HandshakeStage.within_start
  · intro link
    simp only [hinitiator, hresponder, Nat.le_refl]
  · intro arm link hlink
    rw [hcurrent] at hlink
    contradiction
  · intro link hfinished
    rw [hinitiator] at hfinished
    contradiction
  · intro arm session hslot
    have hverdict : (lookupAndConnect Key setting.lookup).verdict s.receiver
        arm = some (.ready (.ok session)) := Select.verdict_eq_ok hslot
    have heq : s.receiver = fun arm =>
        ((lookupAndConnect Key setting.lookup).arms arm).start := hreceiver
    rw [heq, lookup_verdict_start] at hverdict
    contradiction
  · intro racing slots arm session hracing
    rw [hphase] at hracing
    contradiction

/-- A step of the sender alone ends no handshake. -/
theorem announce_alone {event : AnnounceEvent Key} {u v : AnnounceState Key}
    {allowRelay : Bool} (hjoint : ∀ arm key,
      event.step ≠ .arm arm (.handshaken key))
    (hnext : (announce Key allowRelay).next u event = some v)
    {racing : AnnounceSetting} {slots : AnnounceSlots Key}
    (hphase : v.phase = .racing racing slots) (arm : RaceArm)
    (session : ConnectedSession Key) : slots arm ≠ .ready (.ok session) := by
  intro hslot
  obtain ⟨key, _, hstep, _⟩ := announce_completed hnext hphase hslot
  exact hjoint arm key hstep

theorem PairSound.sender (hsound : PairSound setting s)
    {event : AnnounceEvent Key} {sender : AnnounceState Key}
    (hjoint : ∀ arm key, event.step ≠ .arm arm (.handshaken key))
    (hnext : (announce Key setting.announceRelay).next s.sender event =
      some sender) : PairSound setting { s with sender } := by
  constructor
  · exact hsound.within
  · exact hsound.behind
  · exact hsound.current
  · exact hsound.initiated
  · exact hsound.received
  · intro racing slots arm session hracing hslot
    exact absurd hslot (announce_alone hjoint hnext hracing arm session)

theorem PairSound.accept (hsound : PairSound setting s) {arm : RaceArm}
    {link : Link} (hquic : link ≠ .relay) (accepted : Link → Bool) :
    PairSound setting { s with
      accepted
      current := Function.update s.current arm (some link) } := by
  constructor
  · exact hsound.within
  · exact hsound.behind
  · intro other held hheld
    by_cases hsame : other = arm
    · subst hsame
      have hlink : some link = some held := by
        simpa [Function.update_self] using hheld
      cases hlink
      exact hquic
    · have hbefore : s.current other = some held := by
        simpa [Function.update_of_ne hsame] using hheld
      exact hsound.current other held hbefore
  · exact hsound.initiated
  · exact hsound.received
  · exact hsound.announced

theorem PairSound.receiver (hsound : PairSound setting s)
    {event : Σ arm, LookupArmEvent Key arm} {receiver : LookupSlots Key}
    (hpresented : LookupArmEvent.presented event = none)
    (hnext : (lookupAndConnect Key setting.lookup).machine.next s.receiver
      event = some receiver) : PairSound setting { s with receiver } := by
  constructor
  · exact hsound.within
  · exact hsound.behind
  · exact hsound.current
  · intro link hfinished
    have hslot := (hsound.initiated link hfinished).2
    exact absurd hslot (lookup_running hnext link.arm _)
  · intro arm session hslot
    have hcompleted := (lookup_completed hnext hslot).2
    rw [hpresented] at hcompleted
    contradiction
  · exact hsound.announced

/-- Moving bytes keeps the responder behind the initiator. -/
theorem behind_respond (hsound : PairSound setting s) {link : Link} {count : ℕ}
    (hmovable : HandshakeStage.Movable setting.body .responder
      (s.responder link) (s.initiator link) count) (other : Link) :
    (Function.update s.responder link
      ((s.responder link).move setting.body count) other).fromInitiator
        setting.body ≤ (s.initiator other).fromInitiator setting.body := by
  by_cases hsame : other = link
  · subst hsame
    rw [Function.update_self]
    exact HandshakeStage.responder_move_le hmovable (hsound.behind other)
  · rw [Function.update_of_ne hsame]
    exact hsound.behind other

/-- The session that ends the handshake of a sender's arm is on the connection
of that handshake. -/
theorem session_of_responding {arm : RaceArm} {link : Link} {key : Key}
    {session : ConnectedSession Key} {racing : AnnounceSetting}
    {before : AnnounceSlots Key} (hsound : PairSound setting s)
    (hlink : s.responding arm = some link)
    (hphase : s.sender.phase = .racing racing before)
    (hends : EndsIn before key session arm) :
    session = link.session key := by
  have hdirect : ∀ other, s.current other = some link →
      link.session key = .direct key := by
    intro other hcurrent
    have hquic := hsound.current other link hcurrent
    cases link with
    | lan => rfl
    | internet => rfl
    | relay => contradiction
  unfold PairState.responding at hlink
  rw [hphase] at hlink
  cases arm with
  | lan =>
      obtain ⟨hslot, rfl⟩ := hends
      simp only [hslot] at hlink
      exact (hdirect .lan hlink).symm
  | internet =>
      obtain ⟨hslot, rfl⟩ | ⟨hslot, rfl⟩ := hends
      · simp only [hslot] at hlink
        exact (hdirect .internet hlink).symm
      · simp only [hslot] at hlink
        cases hlink
        rfl

theorem PairSound.respond (hsound : PairSound setting s) {arm : RaceArm}
    {count time : ℕ} (hrespond : s.respond setting arm count time = some t) :
    PairSound setting t := by
  unfold PairState.respond at hrespond
  split at hrespond
  next => contradiction
  next link hlink =>
      split at hrespond
      next hmovable =>
          dsimp only at hrespond
          split at hrespond
          next hfinished =>
              obtain ⟨sender, hnext, rfl⟩ :=
                Option.map_eq_some_iff.mp hrespond
              constructor
              · exact hsound.within
              · exact behind_respond hsound hmovable
              · exact hsound.current
              · exact hsound.initiated
              · exact hsound.received
              · intro racing slots other session hracing hslot
                obtain ⟨key, before, hstep, hphase, hends⟩ :=
                  announce_completed hnext hracing hslot
                cases hstep
                refine ⟨link, rfl, ?_,
                  session_of_responding hsound hlink hphase hends⟩
                simpa only [Function.update_self] using hfinished
          next hgoing =>
              cases hrespond
              constructor
              · exact hsound.within
              · exact behind_respond hsound hmovable
              · exact hsound.current
              · exact hsound.initiated
              · exact hsound.received
              · intro racing slots other session hracing hslot
                obtain ⟨ended, hconn, hended, hsession⟩ :=
                  hsound.announced racing slots other session hracing hslot
                have hne : ended ≠ link := by
                  rintro rfl
                  have hturn : (s.responder ended).turn = 3 := by
                    simpa [HandshakeStage.isHandshakeFinished] using hended
                  have hlt := hmovable.1
                  omega
                refine ⟨ended, hconn, ?_, hsession⟩
                simpa only [Function.update_of_ne hne] using hended
      next => contradiction

theorem PairSound.initiate (hsound : PairSound setting s) {link : Link}
    {count now : ℕ} (hinitiate : s.initiate setting link count now = some t) :
    PairSound setting t := by
  unfold PairState.initiate at hinitiate
  split at hinitiate
  next hguard =>
      obtain ⟨hinitiating, hmovable⟩ := hguard
      have hwithin : ∀ other, (Function.update s.initiator link
          ((s.initiator link).move setting.body count) other).Within
            setting.body := by
        intro other
        by_cases hsame : other = link
        · subst hsame
          rw [Function.update_self]
          exact HandshakeStage.Within.move hmovable
        · rw [Function.update_of_ne hsame]
          exact hsound.within other
      have hbehind : ∀ other,
          (s.responder other).fromInitiator setting.body ≤
            (Function.update s.initiator link
              ((s.initiator link).move setting.body count) other).fromInitiator
                setting.body := by
        intro other
        by_cases hsame : other = link
        · subst hsame
          rw [Function.update_self]
          exact Nat.le_trans (hsound.behind other)
            (HandshakeStage.fromInitiator_le_move hmovable)
        · rw [Function.update_of_ne hsame]
          exact hsound.behind other
      dsimp only at hinitiate
      split at hinitiate
      next hfinished =>
          obtain ⟨receiver, hnext, rfl⟩ :=
            Option.map_eq_some_iff.mp hinitiate
          have hslot := lookup_initiated hinitiating hnext
          constructor
          · exact hwithin
          · exact hbehind
          · exact hsound.current
          · intro other hother
            by_cases hsame : other = link
            · subst hsame
              exact ⟨rfl, hslot⟩
            · have hbefore : (s.initiator other).isHandshakeFinished = true := by
                simpa only [Function.update_of_ne hsame] using hother
              have hready := (hsound.initiated other hbefore).2
              exact absurd hready (lookup_running hnext other.arm _)
          · intro arm session hready
            have harm := (lookup_completed hnext hready).1
            have hlinkArm := (lookup_completed hnext hslot).1
            rw [← harm, hlinkArm] at hready
            refine ⟨link, rfl, ?_⟩
            have heq := hready.symm.trans hslot
            cases heq
            rfl
          · exact hsound.announced
      next hgoing =>
          cases hinitiate
          constructor
          · exact hwithin
          · exact hbehind
          · exact hsound.current
          · intro other hother
            have hne : other ≠ link := by
              rintro rfl
              apply hgoing
              simpa only [Function.update_self] using hother
            have hbefore : (s.initiator other).isHandshakeFinished = true := by
              simpa only [Function.update_of_ne hne] using hother
            exact hsound.initiated other hbefore
          · exact hsound.received
          · exact hsound.announced
  next => contradiction

theorem pairSound_next {event : PairEvent Key} (hsound : PairSound setting s)
    (hnext : (pair setting).next s event = some t) : PairSound setting t := by
  cases event with
  | sender event =>
      simp only [pair] at hnext
      split at hnext
      next => contradiction
      next hjoint =>
          obtain ⟨sender, hsender, rfl⟩ := Option.map_eq_some_iff.mp hnext
          apply hsound.sender _ hsender
          intro arm key hstep
          simp [AnnounceEvent.joint, hstep] at hjoint
  | accept arm link time =>
      simp only [pair] at hnext
      split at hnext
      next hquic =>
          obtain ⟨sender, hsender, rfl⟩ := Option.map_eq_some_iff.mp hnext
          have hstepped := hsound.sender (by simp) hsender
          exact hstepped.accept hquic.1 _
      next => contradiction
  | respond arm count time => exact hsound.respond hnext
  | receiver event =>
      simp only [pair] at hnext
      split at hnext
      next => contradiction
      next hnone =>
          obtain ⟨receiver, hreceiver, rfl⟩ := Option.map_eq_some_iff.mp hnext
          apply hsound.receiver _ hreceiver
          simpa using hnone
  | initiate link count now => exact hsound.initiate hnext

theorem pairSound_of_reachable (hreach : (pair setting).Reachable s) :
    PairSound setting s :=
  hreach.invariant (fun _ hstart => pairSound_start hstart)
    fun _ _ _ hsound hnext => pairSound_next hsound hnext

/-- If both calls have returned a session, the two are on one connection, each
with the other's key. -/
theorem same_connection (hreach : (pair setting).Reachable s)
    {announced received : ConnectedSession Key}
    (hsender : s.sender.phase.result = some (.ok announced))
    (hreceiver : (lookupAndConnect Key setting.lookup).settle s.receiver =
      .ready (.ok received)) :
    ∃ link, s.senderConn = some link ∧ s.receiverConn = some link ∧
      announced = link.session setting.receiverKey ∧
      received = link.session setting.senderKey := by
  have hsound := pairSound_of_reachable hreach
  cases hphase : s.sender.phase with
  | settingUp stage =>
      rw [hphase] at hsender
      cases hsender
  | abandoned stage error =>
      rw [hphase] at hsender
      cases hsender
  | racing racing slots =>
      rw [hphase] at hsender
      obtain ⟨arm, hslot⟩ := completed_of_settle hsender
      obtain ⟨link, hconn, hfinished, hannounced⟩ :=
        hsound.announced racing slots arm announced hphase hslot
      have hall : (s.responder link).fromInitiator setting.body =
          HandshakeStage.frameLength setting.body 0 +
            HandshakeStage.frameLength setting.body 2 :=
        HandshakeStage.fromInitiator_of_finished hfinished
      have hwhole := (hsound.within link).finished
        (by rw [← hall]; exact hsound.behind link)
      obtain ⟨hreceiverConn, _⟩ := hsound.initiated link hwhole
      obtain ⟨arm', hslot'⟩ | hbad := Select.ok_of_settle hreceiver
      · obtain ⟨link', hconn', hreceived⟩ :=
          hsound.received arm' received hslot'
        have hsame : link' = link := by
          rw [hreceiverConn] at hconn'
          exact (Option.some.inj hconn').symm
        rw [hsame] at hreceived
        exact ⟨link, hconn, hreceiverConn, hannounced, hreceived⟩
      · cases hbad

end Runs

/-! ## A meeting on the LAN -/

namespace LanMeeting

/-- The frames of `Noise_XX_25519_ChaChaPoly_BLAKE2s` without payload. -/
def setting : PairSetting ℕ where
  senderKey := 1
  receiverKey := 2
  announceRelay := true
  lookup := Impostor.setting
  body := fun turn => if turn = 0 then 32 else if turn = 1 then 96 else 64

def initial : PairState ℕ where
  sender := ⟨0, 0, .settingUp .lanConfig⟩
  receiver := fun arm =>
    ((lookupAndConnect ℕ Impostor.setting).arms arm).start
  initiator := fun _ => .start
  responder := fun _ => .start
  accepted := fun _ => false
  current := fun _ => none
  senderConn := none
  receiverConn := none

def events : List (PairEvent ℕ) :=
  ([.done, .done, .localPort 4433, .done, .done, .done, .done, .done, .done,
    .localPort 50001, .external none, .done].map fun net =>
      .sender ⟨0, .setUp net⟩) ++
  ([Impostor.multicast .done, Impostor.multicast .done,
    Impostor.multicast Impostor.datagram, Impostor.dials .done,
    Impostor.dials .done, Impostor.dials .done, Impostor.dials .done,
    Impostor.dials .done, Impostor.dials .done].map .receiver) ++
  [.accept .lan .lan 900, .sender ⟨900, .arm .lan .done⟩,
    .sender ⟨910, .arm .lan .done⟩, .sender ⟨920, .arm .lan .done⟩,
    .initiate .lan 34 930, .respond .lan 34 940, .respond .lan 98 940,
    .initiate .lan 98 950, .initiate .lan 60 950, .initiate .lan 6 960,
    .respond .lan 66 970]

def announced? (phase : AnnouncePhase ℕ) : Option (ConnectedSession ℕ) :=
  match phase.result with
  | some (.ok session) => some session
  | _ => none

theorem of_announced? {phase : AnnouncePhase ℕ} {session : ConnectedSession ℕ}
    (hsession : announced? phase = some session) :
    phase.result = some (.ok session) := by
  unfold announced? at hsession
  split at hsession
  next result hresult =>
      cases hsession
      exact hresult
  next => contradiction

end LanMeeting

open LanMeeting in
theorem same_connection_sample : ∃ s, (pair setting).Reachable s ∧
    ∃ link, s.senderConn = some link ∧ s.receiverConn = some link ∧
      ConnectedSession.direct 2 = link.session setting.receiverKey ∧
      ConnectedSession.direct 1 = link.session setting.senderKey := by
  have hrun : ((pair setting).runFrom initial events).map (fun s =>
      (announced? s.sender.phase, Impostor.session?
        ((lookupAndConnect ℕ Impostor.setting).settle s.receiver))) =
          some (some (.direct 2), some (.direct 1)) := by
    decide +kernel
  obtain ⟨s, hs, hsessions⟩ := Option.map_eq_some_iff.mp hrun
  obtain ⟨hsender, hreceiver⟩ := Prod.mk.inj hsessions
  have hstart : (pair setting).start initial :=
    ⟨⟨rfl, rfl⟩, rfl, rfl, rfl, rfl, rfl, rfl, rfl⟩
  have hreach := Machine.Reachable.of_runFrom hstart hs
  exact ⟨s, hreach, same_connection hreach (of_announced? hsender)
    (Impostor.of_session? hreceiver)⟩

end P2pShare
