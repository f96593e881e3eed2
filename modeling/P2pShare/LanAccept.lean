import P2pShare.AnnounceRace
import P2pShare.TransitionMachine

/-!
# The LAN accept loop and its clients

The loop of `announce_mdns_only_with_code`, which is also the LAN arm of
`announce_and_connect_with_code`, beside any number of clients.  The connections
are numbered in the order in which the endpoint hands them out.  The loop takes
one, and turns to the next only when that one has failed; none of its awaits has
a time limit.  The endpoint answers a connection only when the loop accepts it,
and without early data the client has no stream before that.
-/

namespace P2pShare

open RacingFutures TransitionMachine

/-- What a client has sent: its stream is seen with the first bytes on it, and
the messages are those of the Noise handshake. -/
inductive ClientSaid where
  | nothing
  | opened
  | speaking
  | firstMessage
  | lastMessage
  deriving DecidableEq

namespace ClientSaid

def seen : ClientSaid → Bool
  | .nothing | .opened => false
  | .speaking | .firstMessage | .lastMessage => true

def hasFirst : ClientSaid → Bool
  | .nothing | .opened | .speaking => false
  | .firstMessage | .lastMessage => true

def hasLast : ClientSaid → Bool
  | .lastMessage => true
  | _ => false

end ClientSaid

/-- `stopped` clients never send again, but their connections stay up. -/
structure LanClient where
  said : ClientSaid
  stopped : Bool

def LanClient.fresh : LanClient := ⟨.nothing, false⟩

/-- Where `perform_handshake` stands: at the first `recv_framed`, at
`send_framed`, or at the second `recv_framed`. -/
inductive HandshakeTurn where
  | readFirst
  | reply
  | readLast
  deriving DecidableEq

/-- `arrived` counts the connections that reached the endpoint, and `accepted`
those that the loop has taken; it serves the last of these. -/
structure LanServer (Key : Type) where
  loop : Poll AcceptStage ConnectError (ConnectedSession Key)
  turn : HandshakeTurn
  accepted : ℕ
  arrived : ℕ
  client : ℕ → LanClient

inductive ClientAction where
  | opens
  | speaks
  | sendsFirst
  | sendsLast
  | stops
  deriving DecidableEq

inductive LanEvent (Key : Type) where
  | arrives
  | client (index : ℕ) (action : ClientAction)
  | loop (event : NetEvent Key)
  | readsFirst
  | replies

section Definitions

variable {Key : Type}

/-- The last message answers the reply. -/
def LanClient.act (client : LanClient) (replied : Bool) :
    ClientAction → Option LanClient
  | .opens =>
      if client.said = .nothing then some { client with said := .opened }
      else none
  | .speaks =>
      if client.said = .opened then some { client with said := .speaking }
      else none
  | .sendsFirst =>
      if client.said = .speaking then some { client with said := .firstMessage }
      else none
  | .sendsLast =>
      if client.said = .firstMessage ∧ replied = true then
        some { client with said := .lastMessage }
      else none
  | .stops => some { client with stopped := true }

/-- The await has to wait for a client that has said so much. -/
def awaits (turn : HandshakeTurn) : AcceptStage → ClientSaid → Bool
  | .acceptBi, said => !said.seen
  | .handshake, said =>
      match turn with
      | .readFirst => !said.hasFirst
      | .reply => false
      | .readLast => !said.hasLast
  | _, _ => false

namespace LanServer

variable (s : LanServer Key)

/-- The client of the connection that the loop took last. -/
def served : LanClient := s.client (s.accepted - 1)

def awaiting : Bool :=
  match s.loop with
  | .pending stage => awaits s.turn stage s.served.said
  | _ => false

/-- The endpoint and the client give the await of the loop this event.  An await
on a client that has stopped does not end. -/
def gives (stage : AcceptStage) : NetEvent Key → Bool
  | .incoming => stage ≠ .accept ∨ s.accepted < s.arrived
  | .done => !awaits s.turn stage s.served.said
  | .handshaken _ => s.turn = .readLast ∧ s.served.said.hasLast = true
  | .failed _ | .refused _ =>
      !(s.served.stopped && awaits s.turn stage s.served.said)
  | _ => true

def stepLoop (event : NetEvent Key) : Option (LanServer Key) :=
  match s.loop with
  | .pending stage =>
      if s.gives stage event = true then
        (lanAccept stage event).map fun loop =>
          { s with
            loop
            turn := .readFirst
            accepted :=
              match stage, event with
              | .accept, .incoming => s.accepted + 1
              | _, _ => s.accepted }
      else none
  | _ => none

/-- The next step of `perform_handshake` with this client. -/
def stepHandshake (before after : HandshakeTurn) : Option (LanServer Key) :=
  match s.loop with
  | .pending .handshake =>
      if s.turn = before ∧ s.awaiting = false then
        some { s with turn := after }
      else none
  | _ => none

def replied (index : ℕ) : Bool :=
  match s.loop with
  | .pending .handshake => s.turn = .readLast ∧ index + 1 = s.accepted
  | _ => false

/-- The loop has called `Incoming::accept`, so that the client's `connect` can
return. -/
def connected (index : ℕ) : Bool :=
  match s.loop with
  | .pending .incoming => index + 1 < s.accepted
  | _ => index < s.accepted

def next : LanEvent Key → Option (LanServer Key)
  | .arrives => some { s with arrived := s.arrived + 1 }
  | .client index action =>
      if index < s.arrived ∧ (s.client index).stopped = false ∧
          (action = .stops ∨ s.connected index = true) then
        ((s.client index).act (s.replied index) action).map fun client =>
          { s with client := Function.update s.client index client }
      else none
  | .loop event => s.stepLoop event
  | .readsFirst => s.stepHandshake .readFirst .reply
  | .replies => s.stepHandshake .reply .readLast

end LanServer

structure LanServer.Starts (s : LanServer Key) : Prop where
  loop : s.loop = .pending .accept
  turn : s.turn = .readFirst
  accepted : s.accepted = 0
  arrived : s.arrived = 0
  client : ∀ index, s.client index = .fresh

def lanMachine (Key : Type) : Machine (LanServer Key) (LanEvent Key) where
  start := LanServer.Starts
  next := LanServer.next

namespace LanServer

variable (s : LanServer Key)

/-- The loop waits for a client that has stopped. -/
def Stuck : Prop :=
  s.served.stopped = true ∧ s.awaiting = true

/-- A connection that the loop has not taken belongs to a client that goes on. -/
def LaterWaits : Prop :=
  ∃ later, s.accepted ≤ later ∧ later < s.arrived ∧
    (s.client later).stopped = false

/-- The loop waits only for the stopped client of connection `earlier`, and the
client of connection `later` goes on but is left to wait. -/
structure Blocks (earlier later : ℕ) : Prop where
  serving : s.accepted = earlier + 1
  stopped : (s.client earlier).stopped = true
  awaiting : s.awaiting = true
  inOrder : earlier < later
  arrived : later < s.arrived
  running : (s.client later).stopped = false

def NoneBlocked : Prop :=
  ∀ earlier later, ¬ s.Blocks earlier later

/-- After the await of the loop ends, the next one has to wait. -/
def awaitsNext : Bool :=
  match s.loop with
  | .pending .connecting => !s.served.said.seen
  | .pending .acceptBi => !s.served.said.hasFirst
  | _ => false

/-- The step leaves no client waiting behind one that has stopped: the client
that the loop waits for stops, and the loop turns to wait for a stopped client,
only while no other connection waits for the loop; and none arrives while the
loop waits for a stopped client. -/
def LetsServe : LanEvent Key → Prop
  | .arrives => ¬ s.Stuck
  | .client index .stops =>
      ¬ (s.accepted = index + 1 ∧ s.awaiting = true ∧ s.LaterWaits)
  | .loop .done =>
      ¬ (s.served.stopped = true ∧ s.awaitsNext = true ∧ s.LaterWaits)
  | .replies =>
      ¬ (s.served.stopped = true ∧ s.served.said.hasLast = false ∧
        s.LaterWaits)
  | _ => True

end LanServer

end Definitions

section Steps

variable {Key : Type} {s t : LanServer Key}

/-! ## The steps of a client and of the loop -/

theorem LanClient.stopped_of_act {client after : LanClient} {replied : Bool}
    {action : ClientAction} (hact : client.act replied action = some after)
    (hother : action ≠ .stops) : after.stopped = client.stopped := by
  unfold LanClient.act at hact
  cases action with
  | stops => exact absurd rfl hother
  | opens =>
      dsimp only at hact
      split at hact <;> cases hact
      rfl
  | speaks =>
      dsimp only at hact
      split at hact <;> cases hact
      rfl
  | sendsFirst =>
      dsimp only at hact
      split at hact <;> cases hact
      rfl
  | sendsLast =>
      dsimp only at hact
      split at hact <;> cases hact
      rfl

theorem lanAccept_cases {stage : AcceptStage} {event : NetEvent Key}
    {loop : Poll AcceptStage ConnectError (ConnectedSession Key)}
    (hresume : lanAccept stage event = some loop) :
    (stage = .accept ∧ event = .incoming ∧ loop = .pending .incoming) ∨
    (stage = .incoming ∧ event = .done ∧ loop = .pending .connecting) ∨
    (stage = .connecting ∧ event = .done ∧ loop = .pending .acceptBi) ∨
    (stage = .acceptBi ∧ event = .done ∧ loop = .pending .handshake) ∨
    (event ≠ .done ∧ event ≠ .incoming ∧
      (loop = .pending .accept ∨ ∃ result, loop = .ready result)) := by
  unfold lanAccept at hresume
  split at hresume <;> cases hresume <;> simp

namespace LanServer

theorem stepLoop_cases {event : NetEvent Key}
    (hnext : s.stepLoop event = some t) :
    ∃ stage loop, s.loop = .pending stage ∧ s.gives stage event = true ∧
      lanAccept stage event = some loop ∧ t.loop = loop ∧
      t.turn = .readFirst ∧ t.arrived = s.arrived ∧ t.client = s.client ∧
      (event ≠ .incoming → t.accepted = s.accepted) ∧
      (stage = .accept → event = .incoming → t.accepted = s.accepted + 1) := by
  unfold stepLoop at hnext
  cases hloop : s.loop with
  | ready result =>
      rw [hloop] at hnext
      cases hnext
  | panicked =>
      rw [hloop] at hnext
      cases hnext
  | pending stage =>
      rw [hloop] at hnext
      dsimp only at hnext
      split at hnext
      · next hgives =>
          obtain ⟨loop, hresume, ht⟩ := Option.map_eq_some_iff.mp hnext
          subst t
          refine ⟨stage, loop, rfl, hgives, hresume, rfl, rfl, rfl, rfl, ?_, ?_⟩
          · intro hevent
            cases stage <;> cases event <;> first | rfl | exact absurd rfl hevent
          · rintro rfl rfl
            rfl
      · cases hnext

theorem stepHandshake_cases {before after : HandshakeTurn}
    (hnext : s.stepHandshake before after = some t) :
    s.loop = .pending .handshake ∧ s.turn = before ∧ s.awaiting = false ∧
      t = { s with turn := after } := by
  unfold stepHandshake at hnext
  split at hnext
  · next hloop =>
      split at hnext
      · next hturn =>
          cases hnext
          exact ⟨hloop, hturn.1, hturn.2, rfl⟩
      · cases hnext
  · cases hnext

theorem next_client_cases {index : ℕ} {action : ClientAction}
    (hnext : s.next (.client index action) = some t) :
    index < s.arrived ∧ (s.client index).stopped = false ∧
      ∃ client, (s.client index).act (s.replied index) action = some client ∧
        t = { s with client := Function.update s.client index client } := by
  unfold next at hnext
  dsimp only at hnext
  split at hnext
  · next hready =>
      obtain ⟨client, hact, ht⟩ := Option.map_eq_some_iff.mp hnext
      exact ⟨hready.1, hready.2.1, client, hact, ht.symm⟩
  · cases hnext

/-! ## What a run keeps -/

theorem accept_of_incoming {stage : AcceptStage} {event : NetEvent Key}
    {loop : Poll AcceptStage ConnectError (ConnectedSession Key)}
    (hincoming : event = .incoming)
    (hresume : lanAccept stage event = some loop) :
    stage = .accept ∧ event = .incoming := by
  rcases lanAccept_cases hresume with
    ⟨hstage, _, _⟩ | ⟨_, hdone, _⟩ | ⟨_, hdone, _⟩ | ⟨_, hdone, _⟩ |
      ⟨_, hother, _⟩
  · exact ⟨hstage, hincoming⟩
  · rw [hincoming] at hdone
    cases hdone
  · rw [hincoming] at hdone
    cases hdone
  · rw [hincoming] at hdone
    cases hdone
  · exact absurd hincoming hother

theorem accepted_lt_of_gives (hgives : s.gives .accept .incoming = true) :
    s.accepted < s.arrived := by
  unfold gives at hgives
  simpa using hgives

/-- The connections that have not arrived have sent nothing, the loop takes only
those that have, and it is past its first await only with a connection. -/
structure Ordered (s : LanServer Key) : Prop where
  accepted_le : s.accepted ≤ s.arrived
  fresh : ∀ index, s.arrived ≤ index → s.client index = .fresh
  taken : ∀ stage, s.loop = .pending stage → stage ≠ .accept → 0 < s.accepted

theorem Ordered.next {event : LanEvent Key} (hordered : s.Ordered)
    (hnext : s.next event = some t) : t.Ordered := by
  cases event with
  | arrives =>
      cases hnext
      refine ⟨Nat.le_succ_of_le hordered.accepted_le,
        fun index hindex => hordered.fresh index ?_, hordered.taken⟩
      exact Nat.le_of_succ_le hindex
  | client index action =>
      obtain ⟨harrived, _, client, _, rfl⟩ := next_client_cases hnext
      refine ⟨hordered.accepted_le, fun other hother => ?_, hordered.taken⟩
      have hne : other ≠ index := by
        rintro rfl
        exact absurd harrived (Nat.not_lt.mpr hother)
      dsimp only
      rw [Function.update_of_ne hne]
      exact hordered.fresh other hother
  | loop event =>
      obtain ⟨stage, loop, hloop, hgives, hresume, htloop, _, harrived, hclient,
        hkept, htaken⟩ := stepLoop_cases hnext
      refine ⟨?_, fun index hindex => ?_, fun next hnextStage hne => ?_⟩
      · rw [harrived]
        by_cases hincoming : event = .incoming
        · obtain ⟨rfl, rfl⟩ := accept_of_incoming hincoming hresume
          rw [htaken rfl rfl]
          exact accepted_lt_of_gives hgives
        · rw [hkept hincoming]
          exact hordered.accepted_le
      · rw [hclient]
        exact hordered.fresh index (harrived ▸ hindex)
      · rw [htloop] at hnextStage
        rcases lanAccept_cases hresume with
          ⟨rfl, rfl, _⟩ | ⟨rfl, rfl, _⟩ | ⟨rfl, rfl, _⟩ | ⟨rfl, rfl, _⟩ |
            ⟨_, hincoming, hend⟩
        · rw [htaken rfl rfl]
          exact Nat.succ_pos _
        · rw [hkept (by simp)]
          exact hordered.taken _ hloop (by decide)
        · rw [hkept (by simp)]
          exact hordered.taken _ hloop (by decide)
        · rw [hkept (by simp)]
          exact hordered.taken _ hloop (by decide)
        · rcases hend with rfl | ⟨result, rfl⟩
          · cases hnextStage
            exact absurd rfl hne
          · cases hnextStage
  | readsFirst =>
      obtain ⟨_, _, _, rfl⟩ := stepHandshake_cases hnext
      exact ⟨hordered.accepted_le, hordered.fresh, hordered.taken⟩
  | replies =>
      obtain ⟨_, _, _, rfl⟩ := stepHandshake_cases hnext
      exact ⟨hordered.accepted_le, hordered.fresh, hordered.taken⟩

theorem ordered (hreach : (lanMachine Key).Reachable s) : s.Ordered := by
  apply hreach.invariant
  · intro s₀ hstart
    refine ⟨?_, fun index _ => hstart.client index, fun stage hloop hne => ?_⟩
    · rw [hstart.accepted]
      exact Nat.zero_le _
    · rw [hstart.loop] at hloop
      cases hloop
      exact absurd rfl hne
  · intro u event v hu hnext
    exact hu.next hnext

theorem Ordered.accepted_pos (hordered : s.Ordered)
    (hawaiting : s.awaiting = true) : 0 < s.accepted := by
  unfold awaiting at hawaiting
  cases hloop : s.loop with
  | ready result =>
      rw [hloop] at hawaiting
      cases hawaiting
  | panicked =>
      rw [hloop] at hawaiting
      cases hawaiting
  | pending stage =>
      apply hordered.taken stage hloop
      rintro rfl
      rw [hloop] at hawaiting
      cases hawaiting

/-- The two ways to say that a client waits behind a stopped one. -/
theorem Ordered.noneBlocked_iff (hordered : s.Ordered) :
    s.NoneBlocked ↔ ¬ (s.Stuck ∧ s.LaterWaits) := by
  constructor
  · rintro hnone ⟨⟨hstopped, hawaiting⟩, later, haccepted, harrived, hrunning⟩
    have hpos := hordered.accepted_pos hawaiting
    apply hnone (s.accepted - 1) later
    exact
      { serving := by omega
        stopped := hstopped
        awaiting := hawaiting
        inOrder := by omega
        arrived := harrived
        running := hrunning }
  · rintro hnone earlier later hblocks
    apply hnone
    have hserved : s.served = s.client earlier := by
      unfold served
      rw [hblocks.serving, Nat.add_sub_cancel]
    refine ⟨⟨?_, hblocks.awaiting⟩, later, ?_, hblocks.arrived, hblocks.running⟩
    · rw [hserved]
      exact hblocks.stopped
    · rw [hblocks.serving]
      exact hblocks.inOrder

/-! ## Which steps leave a client waiting -/

theorem serves_arrives (hordered : s.Ordered) :
    ¬ (Stuck { s with arrived := s.arrived + 1 } ∧
        LaterWaits { s with arrived := s.arrived + 1 }) ↔
      s.LetsServe .arrives := by
  have hwaits : LaterWaits { s with arrived := s.arrived + 1 } := by
    refine ⟨s.arrived, hordered.accepted_le, Nat.lt_succ_self _, ?_⟩
    dsimp only
    rw [hordered.fresh _ (Nat.le_refl _)]
    rfl
  unfold LetsServe
  dsimp only
  constructor
  · rintro hnone hstuck
    exact hnone ⟨hstuck, hwaits⟩
  · rintro hnone ⟨hstuck, _⟩
    exact hnone hstuck

/-- A step of the client that the loop serves. -/
theorem serves_served {client : LanClient} {action : ClientAction}
    (hordered : s.Ordered) (hrunning : s.served.stopped = false)
    (hact : s.served.act (s.replied (s.accepted - 1)) action = some client) :
    ¬ (Stuck { s with
          client := Function.update s.client (s.accepted - 1) client } ∧
        LaterWaits { s with
          client := Function.update s.client (s.accepted - 1) client }) ↔
      s.LetsServe (.client (s.accepted - 1) action) := by
  have hserved : served { s with
      client := Function.update s.client (s.accepted - 1) client } = client :=
    Function.update_self _ _ _
  by_cases hstops : action = .stops
  · subst hstops
    cases hact
    have hawaiting : awaiting { s with
        client := Function.update s.client (s.accepted - 1)
          { s.served with stopped := true } } = s.awaiting := by
      unfold awaiting
      rw [hserved]
    have hlater : 0 < s.accepted → (LaterWaits { s with
        client := Function.update s.client (s.accepted - 1)
          { s.served with stopped := true } } ↔ s.LaterWaits) := by
      intro hpos
      apply exists_congr
      intro later
      apply and_congr_right
      intro haccepted
      have hne : later ≠ s.accepted - 1 := by
        have hle : s.accepted ≤ later := haccepted
        omega
      dsimp only
      rw [Function.update_of_ne hne]
    unfold Stuck
    rw [hserved, hawaiting]
    unfold LetsServe
    dsimp only
    constructor
    · rintro hnone ⟨hserving, hwait, hwaits⟩
      exact hnone ⟨⟨rfl, hwait⟩,
        (hlater (hordered.accepted_pos hwait)).mpr hwaits⟩
    · rintro hnone ⟨⟨_, hwait⟩, hwaits⟩
      have hpos := hordered.accepted_pos hwait
      exact hnone ⟨by omega, hwait, (hlater hpos).mp hwaits⟩
  · have hrunning' : client.stopped = false :=
      (LanClient.stopped_of_act hact hstops).trans hrunning
    apply iff_of_true
    · rintro ⟨⟨hstopped, _⟩, _⟩
      rw [hserved, hrunning'] at hstopped
      cases hstopped
    · cases action with
      | stops => exact absurd rfl hstops
      | opens => trivial
      | speaks => trivial
      | sendsFirst => trivial
      | sendsLast => trivial

/-- A step of a client that the loop does not serve. -/
theorem serves_other {client : LanClient} {index : ℕ} {action : ClientAction}
    (hordered : s.Ordered) (hserves : ¬ (s.Stuck ∧ s.LaterWaits))
    (hrunning : (s.client index).stopped = false)
    (hindex : index ≠ s.accepted - 1) :
    ¬ (Stuck { s with client := Function.update s.client index client } ∧
        LaterWaits
          { s with client := Function.update s.client index client }) ↔
      s.LetsServe (.client index action) := by
  have hserved : served { s with
      client := Function.update s.client index client } = s.served :=
    Function.update_of_ne (Ne.symm hindex) _ _
  have hstuck : Stuck { s with
      client := Function.update s.client index client } ↔ s.Stuck := by
    unfold Stuck awaiting
    rw [hserved]
  rw [hstuck]
  apply iff_of_true
  · rintro ⟨hs, later, haccepted, harrived, hlater⟩
    refine hserves ⟨hs, later, haccepted, harrived, ?_⟩
    by_cases hsame : later = index
    · rw [hsame]
      exact hrunning
    · dsimp only at hlater
      rw [Function.update_of_ne hsame] at hlater
      exact hlater
  · cases action with
    | stops =>
        rintro ⟨haccepted, hwait, _⟩
        have hpos := hordered.accepted_pos hwait
        omega
    | opens => trivial
    | speaks => trivial
    | sendsFirst => trivial
    | sendsLast => trivial

theorem serves_loop {event : NetEvent Key} (hnext : s.stepLoop event = some t) :
    ¬ (t.Stuck ∧ t.LaterWaits) ↔ s.LetsServe (.loop event) := by
  obtain ⟨stage, loop, hloop, _, hresume, htloop, hturn, harrived, hclient,
    hkept, _⟩ := stepLoop_cases hnext
  have hsame : event ≠ .incoming →
      t.served = s.served ∧ (t.LaterWaits ↔ s.LaterWaits) := by
    intro hincoming
    have haccepted := hkept hincoming
    refine ⟨?_, ?_⟩
    · unfold served
      rw [hclient, haccepted]
    · unfold LaterWaits
      rw [hclient, haccepted, harrived]
  have hquiet : t.awaiting = false → ¬ (t.Stuck ∧ t.LaterWaits) := by
    rintro hwait ⟨⟨_, hawaiting⟩, _⟩
    rw [hwait] at hawaiting
    cases hawaiting
  rcases lanAccept_cases hresume with
    ⟨rfl, rfl, rfl⟩ | ⟨rfl, rfl, rfl⟩ | ⟨rfl, rfl, rfl⟩ | ⟨rfl, rfl, rfl⟩ |
      ⟨hdone, hincoming, hend⟩
  · have hwait : t.awaiting = false := by
      unfold awaiting
      rw [htloop]
      rfl
    exact iff_of_true (hquiet hwait) trivial
  · have hwait : t.awaiting = false := by
      unfold awaiting
      rw [htloop]
      rfl
    have hnextWait : s.awaitsNext = false := by
      unfold awaitsNext
      rw [hloop]
    apply iff_of_true (hquiet hwait)
    rintro ⟨_, hawaits, _⟩
    rw [hnextWait] at hawaits
    cases hawaits
  · obtain ⟨hserved, hlater⟩ := hsame (by simp)
    have hwait : t.awaiting = s.awaitsNext := by
      unfold awaiting awaitsNext
      rw [htloop, hloop, hserved]
      rfl
    unfold Stuck LetsServe
    rw [hserved, hwait, hlater, and_assoc]
  · obtain ⟨hserved, hlater⟩ := hsame (by simp)
    have hwait : t.awaiting = s.awaitsNext := by
      unfold awaiting awaitsNext
      rw [htloop, hloop, hserved, hturn]
      rfl
    unfold Stuck LetsServe
    rw [hserved, hwait, hlater, and_assoc]
  · have hwait : t.awaiting = false := by
      unfold awaiting
      rw [htloop]
      rcases hend with rfl | ⟨result, rfl⟩
      · rfl
      · rfl
    apply iff_of_true (hquiet hwait)
    cases event with
    | done => exact absurd rfl hdone
    | _ => trivial

theorem serves_readsFirst (hnext : s.stepHandshake .readFirst .reply = some t) :
    ¬ (t.Stuck ∧ t.LaterWaits) := by
  obtain ⟨hloop, _, _, rfl⟩ := stepHandshake_cases hnext
  rintro ⟨⟨_, hwait⟩, _⟩
  unfold awaiting at hwait
  dsimp only at hwait
  rw [hloop] at hwait
  cases hwait

theorem serves_replies (hnext : s.stepHandshake .reply .readLast = some t) :
    ¬ (t.Stuck ∧ t.LaterWaits) ↔ s.LetsServe .replies := by
  obtain ⟨hloop, _, _, rfl⟩ := stepHandshake_cases hnext
  have hwait : awaiting { s with turn := .readLast } =
      !s.served.said.hasLast := by
    unfold awaiting
    dsimp only
    rw [hloop]
    rfl
  unfold Stuck LetsServe
  rw [hwait, Bool.not_eq_true', and_assoc]
  exact Iff.rfl

/-- A step leaves a client waiting behind a stopped one exactly when it violates
the guard. -/
theorem serves_iff {event : LanEvent Key}
    (hreach : (lanMachine Key).Reachable s) (hserves : s.NoneBlocked)
    (hnext : (lanMachine Key).next s event = some t) :
    t.NoneBlocked ↔ s.LetsServe event := by
  have hordered := ordered hreach
  have hordered' := ordered (hreach.step hnext)
  rw [hordered.noneBlocked_iff] at hserves
  rw [hordered'.noneBlocked_iff]
  cases event with
  | arrives =>
      cases hnext
      exact serves_arrives hordered
  | client index action =>
      obtain ⟨harrived, hrunning, client, hact, rfl⟩ := next_client_cases hnext
      by_cases hindex : index = s.accepted - 1
      · subst hindex
        exact serves_served hordered hrunning hact
      · exact serves_other hordered hserves hrunning hindex
  | loop event => exact serves_loop hnext
  | readsFirst => exact iff_of_true (serves_readsFirst hnext) trivial
  | replies => exact serves_replies hnext

/-! ## A loop that waits for a stopped client -/

theorem awaiting_eq {stage : AcceptStage} (hloop : s.loop = .pending stage) :
    s.awaiting = awaits s.turn stage s.served.said := by
  unfold awaiting
  rw [hloop]

/-- What the client and the endpoint give ends no await on a stopped client. -/
theorem lanAccept_of_stuck {stage : AcceptStage} {event : NetEvent Key}
    (hstopped : s.served.stopped = true)
    (hwait : awaits s.turn stage s.served.said = true)
    (hgives : s.gives stage event = true) : lanAccept stage event = none := by
  unfold lanAccept
  split
  · cases hwait
  · cases hwait
  · cases hwait
  · cases hwait
  · cases hwait
  · cases hwait
  · simp [gives, hwait] at hgives
  · simp [gives, hstopped, hwait] at hgives
  · simp only [gives, decide_eq_true_eq] at hgives
    simp [awaits, hgives.1, hgives.2] at hwait
  · simp [gives, hstopped, hwait] at hgives
  · rfl

/-- No step of the loop is left. -/
theorem stuck_waits (hstuck : s.Stuck) :
    (∀ event, s.stepLoop event = none) ∧
      ∀ before after, s.stepHandshake before after = none := by
  obtain ⟨hstopped, hawaiting⟩ := hstuck
  constructor
  · intro event
    unfold stepLoop
    cases hloop : s.loop with
    | ready result => rfl
    | panicked => rfl
    | pending stage =>
        rw [awaiting_eq hloop] at hawaiting
        dsimp only
        by_cases hgives : s.gives stage event = true
        · rw [if_pos hgives, lanAccept_of_stuck hstopped hawaiting hgives,
            Option.map_none]
        · rw [if_neg hgives]
  · intro before after
    unfold stepHandshake
    split
    · rw [if_neg]
      rw [hawaiting]
      simp
    · rfl

/-- The loop stays stuck, whatever the other clients do, and takes none of
them. -/
theorem Stuck.next {event : LanEvent Key} (hstuck : s.Stuck)
    (hnext : s.next event = some t) : t.Stuck ∧ t.accepted = s.accepted := by
  obtain ⟨hloop, hhandshake⟩ := stuck_waits hstuck
  cases event with
  | arrives =>
      cases hnext
      exact ⟨hstuck, rfl⟩
  | client index action =>
      obtain ⟨_, hrunning, client, _, rfl⟩ := next_client_cases hnext
      have hindex : index ≠ s.accepted - 1 := by
        rintro rfl
        have hstopped := hstuck.1
        unfold served at hstopped
        rw [hrunning] at hstopped
        cases hstopped
      have hserved : served { s with
          client := Function.update s.client index client } = s.served :=
        Function.update_of_ne (Ne.symm hindex) _ _
      refine ⟨?_, rfl⟩
      unfold Stuck awaiting
      rw [hserved]
      exact hstuck
  | loop event =>
      have hnone := hloop event
      have hsome : s.stepLoop event = some t := hnext
      rw [hnone] at hsome
      cases hsome
  | readsFirst =>
      have hsome : s.stepHandshake .readFirst .reply = some t := hnext
      rw [hhandshake] at hsome
      cases hsome
  | replies =>
      have hsome : s.stepHandshake .reply .readLast = some t := hnext
      rw [hhandshake] at hsome
      cases hsome

theorem Stuck.leads (hstuck : s.Stuck)
    (hleads : (lanMachine Key).Leads s t) :
    t.Stuck ∧ t.accepted = s.accepted := by
  apply hleads.preserves
    (P := fun u => u.Stuck ∧ u.accepted = s.accepted) ⟨hstuck, rfl⟩
  rintro u event v ⟨hu, haccepted⟩ hnext
  obtain ⟨hv, hsame⟩ := hu.next hnext
  exact ⟨hv, hsame.trans haccepted⟩

end LanServer

/-- In an execution no client ever waits behind one that has stopped exactly
when none of the steps leaves one so. -/
theorem lan_loop_serves_iff {history : List (LanServer Key × LanEvent Key)}
    (hexec : (lanMachine Key).Execution history s) :
    Machine.Throughout LanServer.NoneBlocked history s ↔
      ∀ entry ∈ history, entry.1.LetsServe entry.2 := by
  have hstart : ∀ s₀, (lanMachine Key).start s₀ →
      LanServer.NoneBlocked s₀ := by
    intro s₀ hs₀ earlier later hblocks
    have hserving := hblocks.serving
    rw [hs₀.accepted] at hserving
    cases hserving
  have hstep : ∀ u event v, (lanMachine Key).Reachable u →
      LanServer.NoneBlocked u → (lanMachine Key).next u event = some v →
      (LanServer.NoneBlocked v ↔ u.LetsServe event) :=
    fun _ _ _ hreach hserves hnext => LanServer.serves_iff hreach hserves hnext
  exact hexec.throughout_iff hstart hstep

end Steps

/-! ## A client that opens no stream -/

def LanServer.idle : LanServer Bool where
  loop := .pending .accept
  turn := .readFirst
  accepted := 0
  arrived := 0
  client := fun _ => .fresh

/-- The first client stops once its connection is up, and a second one
connects. -/
def silentFirst : List (LanEvent Bool) :=
  [.arrives, .loop .incoming, .loop .done, .loop .done, .client 0 .stops,
    .arrives]

/-- The handshake of the first client fails, and that of the second one ends. -/
def secondServed : List (LanEvent Bool) :=
  [.arrives, .arrives, .loop .incoming, .loop .done, .loop .done,
    .client 0 .opens, .client 0 .speaks, .loop .done,
    .loop (.refused (.noise "decrypt error")), .loop .incoming, .loop .done,
    .loop .done, .client 1 .opens, .client 1 .speaks, .loop .done,
    .client 1 .sendsFirst, .readsFirst, .replies, .client 1 .sendsLast,
    .loop (.handshaken true)]

theorem idle_starts : (lanMachine Bool).start LanServer.idle :=
  ⟨rfl, rfl, rfl, rfl, fun _ => rfl⟩

theorem secondServed_run :
    (((lanMachine Bool).runFrom LanServer.idle secondServed).map
      fun s => (s.accepted, s.served.said)) = some (2, .lastMessage) := by
  decide +kernel

theorem lan_loop_serves_sample :
    ∃ history, ∃ s : LanServer Bool, s.accepted = 2 ∧
      s.served.said = .lastMessage ∧
      (Machine.Throughout LanServer.NoneBlocked history s ↔
        ∀ entry ∈ history, entry.1.LetsServe entry.2) := by
  obtain ⟨s, hrun, hdata⟩ := Option.map_eq_some_iff.mp secondServed_run
  simp only [Prod.mk.injEq] at hdata
  obtain ⟨history, hexec⟩ :=
    (Machine.Reachable.of_runFrom idle_starts hrun).execution
  exact ⟨history, s, hdata.1, hdata.2, lan_loop_serves_iff hexec⟩

theorem silentFirst_run :
    (((lanMachine Bool).runFrom LanServer.idle silentFirst).map
      fun s => (s.accepted, (s.client 0).stopped, s.awaiting, s.arrived,
        (s.client 1).stopped)) = some (1, true, true, 2, false) := by
  decide +kernel

/-- The second client waits for a loop that waits for the first, and the loop
never takes it. -/
theorem silent_client_blocks_lan_loop :
    ∃ s, (lanMachine Bool).Reachable s ∧ s.Blocks 0 1 ∧
      ∀ t, (lanMachine Bool).Leads s t → t.Stuck ∧ t.accepted = 1 := by
  obtain ⟨s, hrun, hdata⟩ := Option.map_eq_some_iff.mp silentFirst_run
  simp only [Prod.mk.injEq] at hdata
  obtain ⟨haccepted, hstopped, hawaiting, harrived, hrunning⟩ := hdata
  have hblocks : s.Blocks 0 1 :=
    { serving := haccepted
      stopped := hstopped
      awaiting := hawaiting
      inOrder := by decide
      arrived := by omega
      running := hrunning }
  have hstuck : s.Stuck := by
    unfold LanServer.Stuck LanServer.served
    rw [haccepted]
    exact ⟨hstopped, hawaiting⟩
  refine ⟨s, Machine.Reachable.of_runFrom idle_starts hrun, hblocks, ?_⟩
  intro t hleads
  obtain ⟨hstill, hsame⟩ := hstuck.leads hleads
  exact ⟨hstill, hsame.trans haccepted⟩

end P2pShare
