import P2pShare.TransitionMachine
import P2pShare.ByteStream
import Mathlib.Logic.Function.Basic

/-!
# The relay server

`handle` of `p2pshare-relay`, one step for each await, for any number of
connections.  A connection and the task that handles it share a number.  The
wait map holds, for a token, the task whose oneshot sender it stores, and the
channel of a task is part of its state: the stream in it is the number of the
connection that was sent.

The two copy loops of a pipe are polled together by `join!`, so one event moves
both of them.
-/

namespace P2pShare

open ByteStream TransitionMachine

abbrev Token := Bytes

def tokenLength : ℕ := 16

/-- A TCP connection: what the client wrote, whether it has closed its sending
side, how much of it the relay has read, and what the relay wrote to it. -/
structure Connection where
  wrote : Bytes
  closed : Bool
  taken : ℕ
  got : Bytes
  deriving DecidableEq

/-- `tokio::io::copy`: the bytes it has read and not yet written. -/
structure Copy where
  buffer : Bytes
  ended : Bool
  deriving DecidableEq

/-- What a copy loop does when it is polled. -/
inductive CopyStep where
  | idle
  | moves (read written : ℕ)
  | endOfStream
  | fails
  deriving DecidableEq

/-- The loop returns. -/
def CopyStep.ends : CopyStep → Bool
  | .endOfStream | .fails => true
  | _ => false

namespace Copy

def start : Copy := ⟨[], false⟩

/-- The loop after a poll, the number of bytes it read and the bytes it wrote. -/
def poll (copy : Copy) (source : Connection) :
    CopyStep → Option (Copy × ℕ × Bytes)
  | .idle => some (copy, 0, [])
  | .moves read written =>
      let arrived := (source.wrote.drop source.taken).take read
      let buffer := copy.buffer ++ arrived
      if copy.ended then none
      else
        some (⟨buffer.drop written, false⟩, arrived.length,
          buffer.take written)
  | .endOfStream =>
      if copy.ended = false ∧ source.closed ∧
          source.taken = source.wrote.length ∧ copy.buffer = [] then
        some (⟨[], true⟩, 0, [])
      else none
  | .fails => if copy.ended then none else some (⟨copy.buffer, true⟩, 0, [])

end Copy

/-- A task.  The second number of `sending`, `handed` and `refused` is the task
that waits for the stream, that of the later states the connection whose stream
was received. -/
inductive Handler where
  | absent
  | reading
  | unread
  | lookup (token : Token)
  | sending (token : Token) (first : ℕ)
  | handed (token : Token) (first : ℕ)
  | refused (token : Token) (first : ℕ)
  | register (token : Token)
  | waiting (token : Token) (sent : Option ℕ)
  | cleanup (token : Token)
  | expired (token : Token)
  | signalFirst (token : Token) (peer : ℕ)
  | signalPeer (token : Token) (peer : ℕ)
  | piping (token : Token) (peer : ℕ) (toPeer fromPeer : Copy)
  | returned (token : Token) (peer : ℕ)
  deriving DecidableEq

namespace Handler

/-- The token the connection has presented. -/
def token? : Handler → Option Token
  | absent | reading | unread => none
  | lookup token | sending token _ | handed token _ | refused token _
  | register token | waiting token _ | cleanup token | expired token
  | signalFirst token _ | signalPeer token _ | piping token _ _ _
  | returned token _ => some token

/-- The task whose sender this one has taken from the map. -/
def target? : Handler → Option ℕ
  | sending _ first | handed _ first | refused _ first => some first
  | _ => none

/-- The connection this task is paired with. -/
def peer? : Handler → Option ℕ
  | signalFirst _ peer | signalPeer _ peer | piping _ peer _ _
  | returned _ peer => some peer
  | _ => none

/-- The connection whose stream came through the channel. -/
def guest? : Handler → Option ℕ
  | waiting _ sent => sent
  | handler => handler.peer?

/-- The task has put its own sender into the map. -/
def registered : Handler → Bool
  | waiting _ _ | cleanup _ | expired _ | signalFirst _ _ | signalPeer _ _
  | piping _ _ _ _ | returned _ _ => true
  | _ => false

end Handler

/-- `dropped` lists the tasks whose oneshot sender was dropped unused;
`evictions` the removals of the cleanup branch, each with the task that removed
and the task whose sender was removed. -/
structure Relay where
  connections : ℕ → Connection
  handlers : ℕ → Handler
  waitMap : Token → Option ℕ
  dropped : List ℕ
  evictions : List (ℕ × ℕ)

inductive RelayEvent where
  | accept (id : ℕ)
  | clientWrites (id : ℕ) (bytes : Bytes)
  | clientCloses (id : ℕ)
  | readToken (id : ℕ)
  | readFails (id : ℕ)
  | lookup (id : ℕ)
  | send (id : ℕ)
  | register (id : ℕ)
  | takePeer (id : ℕ)
  | timesOut (id : ℕ)
  | senderDropped (id : ℕ)
  | cleanup (id : ℕ)
  | signal (id : ℕ)
  | signalFails (id : ℕ)
  | poll (id : ℕ) (toPeer fromPeer : CopyStep)

namespace Relay

def setHandler (s : Relay) (id : ℕ) (handler : Handler) : Relay :=
  { s with handlers := Function.update s.handlers id handler }

def setConnection (s : Relay) (id : ℕ) (connection : Connection) : Relay :=
  { s with connections := Function.update s.connections id connection }

/-- `HashMap::insert` or `remove`. -/
def setEntry (s : Relay) (token : Token) (entry : Option ℕ) : Relay :=
  { s with waitMap := Function.update s.waitMap token entry }

/-- The relay writes to a connection. -/
def write (s : Relay) (id : ℕ) (bytes : Bytes) : Relay :=
  s.setConnection id
    { s.connections id with got := (s.connections id).got ++ bytes }

/-- The relay has read from a connection. -/
def take (s : Relay) (id : ℕ) (count : ℕ) : Relay :=
  s.setConnection id
    { s.connections id with taken := (s.connections id).taken + count }

/-- `tx.send(stream)`, which fails once the receiver is gone. -/
def hand (s : Relay) (id : ℕ) (token : Token) (first : ℕ) : Relay :=
  match s.handlers first with
  | .waiting firstToken none =>
      (s.setHandler first (.waiting firstToken (some id))).setHandler id
        (.handed token first)
  | _ => s.setHandler id (.refused token first)

/-- A sender that leaves the map without being used is dropped. -/
def evict (s : Relay) (token : Token) : Relay :=
  { s with dropped := (s.waitMap token).toList ++ s.dropped }

def pipe (token : Token) (peer : ℕ) (toPeer fromPeer : Copy) : Handler :=
  if toPeer.ended ∧ fromPeer.ended then .returned token peer
  else .piping token peer toPeer fromPeer

def next (s : Relay) : RelayEvent → Option Relay
  | .accept id =>
      match s.handlers id with
      | .absent => some (s.setHandler id .reading)
      | _ => none
  | .clientWrites id bytes =>
      let connection := s.connections id
      if connection.closed then none
      else
        some (s.setConnection id
          { connection with wrote := connection.wrote ++ bytes })
  | .clientCloses id =>
      some (s.setConnection id { s.connections id with closed := true })
  | .readToken id =>
      match s.handlers id with
      | .reading =>
          if tokenLength ≤ (s.connections id).wrote.length then
            some ((s.take id tokenLength).setHandler id
              (.lookup ((s.connections id).wrote.take tokenLength)))
          else none
      | _ => none
  | .readFails id =>
      match s.handlers id with
      | .reading => some (s.setHandler id .unread)
      | _ => none
  | .lookup id =>
      match s.handlers id with
      | .lookup token =>
          match s.waitMap token with
          | some first =>
              some ((s.setEntry token none).setHandler id (.sending token first))
          | none => some (s.setHandler id (.register token))
      | _ => none
  | .send id =>
      match s.handlers id with
      | .sending token first => some (s.hand id token first)
      | _ => none
  | .register id =>
      match s.handlers id with
      | .register token =>
          some (((s.evict token).setEntry token (some id)).setHandler id
            (.waiting token none))
      | _ => none
  | .takePeer id =>
      match s.handlers id with
      | .waiting token (some peer) =>
          some (s.setHandler id (.signalFirst token peer))
      | _ => none
  | .timesOut id =>
      match s.handlers id with
      | .waiting token _ => some (s.setHandler id (.cleanup token))
      | _ => none
  | .senderDropped id =>
      match s.handlers id with
      | .waiting token none =>
          if id ∈ s.dropped then some (s.setHandler id (.cleanup token))
          else none
      | _ => none
  | .cleanup id =>
      match s.handlers id with
      | .cleanup token =>
          let removed := (s.waitMap token).toList.map fun owner => (id, owner)
          some (({ s.evict token with
              evictions := removed ++ s.evictions }.setEntry token none).setHandler
            id (.expired token))
      | _ => none
  | .signal id =>
      match s.handlers id with
      | .signalFirst token peer =>
          some ((s.write id [1]).setHandler id (.signalPeer token peer))
      | .signalPeer token peer =>
          some ((s.write peer [1]).setHandler id
            (.piping token peer .start .start))
      | _ => none
  | .signalFails id =>
      match s.handlers id with
      | .signalFirst token peer | .signalPeer token peer =>
          some (s.setHandler id (.returned token peer))
      | _ => none
  | .poll id stepTo stepFrom =>
      match s.handlers id with
      | .piping token peer toPeer fromPeer =>
          (toPeer.poll (s.connections id) stepTo).bind
            fun (toPeer, readTo, bytesTo) =>
              (fromPeer.poll (s.connections peer) stepFrom).map
                fun (fromPeer, readFrom, bytesFrom) =>
                  ((((s.take id readTo).write peer bytesTo).take peer
                    readFrom).write id bytesFrom).setHandler id
                      (pipe token peer toPeer fromPeer)
      | _ => none

structure Starts (s : Relay) : Prop where
  connections : ∀ id, s.connections id = ⟨[], false, 0, []⟩
  handlers : ∀ id, s.handlers id = .absent
  waitMap : ∀ token, s.waitMap token = none
  dropped : s.dropped = []
  evictions : s.evictions = []

def machine : Machine Relay RelayEvent where
  start := Starts
  next := next

def fresh : Relay where
  connections := fun _ => ⟨[], false, 0, []⟩
  handlers := fun _ => .absent
  waitMap := fun _ => none
  dropped := []
  evictions := []

theorem starts_fresh : Starts fresh where
  connections := fun _ => rfl
  handlers := fun _ => rfl
  waitMap := fun _ => rfl
  dropped := rfl
  evictions := rfl

@[simp] theorem setHandler_handlers (s : Relay) (id : ℕ) (handler : Handler) :
    (s.setHandler id handler).handlers =
      Function.update s.handlers id handler :=
  rfl

@[simp] theorem setHandler_connections (s : Relay) (id : ℕ)
    (handler : Handler) :
    (s.setHandler id handler).connections = s.connections :=
  rfl

@[simp] theorem setHandler_waitMap (s : Relay) (id : ℕ) (handler : Handler) :
    (s.setHandler id handler).waitMap = s.waitMap :=
  rfl

@[simp] theorem write_handlers (s : Relay) (id : ℕ) (bytes : Bytes) :
    (s.write id bytes).handlers = s.handlers :=
  rfl

@[simp] theorem write_waitMap (s : Relay) (id : ℕ) (bytes : Bytes) :
    (s.write id bytes).waitMap = s.waitMap :=
  rfl

@[simp] theorem take_handlers (s : Relay) (id count : ℕ) :
    (s.take id count).handlers = s.handlers :=
  rfl

@[simp] theorem take_waitMap (s : Relay) (id count : ℕ) :
    (s.take id count).waitMap = s.waitMap :=
  rfl

/-- The two connections belong to one pipe. -/
def Piped (s : Relay) (a b : ℕ) : Prop :=
  (s.handlers a).peer? = some b ∨ (s.handlers b).peer? = some a

theorem Piped.symm {s : Relay} {a b : ℕ} (hpiped : s.Piped a b) :
    s.Piped b a :=
  Or.symm hpiped

end Relay

def sampleToken : Token := List.replicate tokenLength 7

/-- The client presents the sample token, and its task has read it. -/
def arrives (id : ℕ) (bytes : Bytes) : List RelayEvent :=
  [.clientWrites id (sampleToken ++ bytes), .accept id, .readToken id]

/-- The second of two connections finds the first. -/
def pairUp (first second : ℕ) : List RelayEvent :=
  [.lookup first, .register first, .lookup second, .send second,
    .takePeer first, .signal first, .signal first]

end P2pShare
