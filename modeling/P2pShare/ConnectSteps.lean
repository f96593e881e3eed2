import P2pShare.LanDiscovery

/-!
# The steps of connecting

The straight-line parts that the sender and the receiver share: the QUIC dial
with its handshake, the fallback through the relay, and the hole punch.
-/

namespace P2pShare

open RacingFutures

inductive ConnectedSession (Key : Type) where
  | direct (remotePubkey : Key)
  | relay (remotePubkey : Key)
  deriving DecidableEq

inductive DialStage where
  | bind (addr : SocketAddr)
  | endpoint (addr : SocketAddr)
  | config (addr : SocketAddr)
  | connectWith (addr : SocketAddr)
  | connecting
  | openBi
  | handshake
  deriving DecidableEq

/-- Bind a socket, dial the address, open a stream and shake hands as the
initiator. -/
def dial {Key : Type} : DialStage → NetEvent Key →
    Option (Poll DialStage ConnectError (ConnectedSession Key))
  | .bind addr, .done => some (.pending (.endpoint addr))
  | .bind _, .failed text => some (.ready (.error (.io text)))
  | .endpoint addr, .done => some (.pending (.config addr))
  | .endpoint _, .failed text => some (.ready (.error (.quic text)))
  | .config addr, .done => some (.pending (.connectWith addr))
  | .config _, .failed text => some (.ready (.error (.quic text)))
  | .connectWith _, .done => some (.pending .connecting)
  | .connectWith _, .failed text => some (.ready (.error (.quic text)))
  | .connecting, .done => some (.pending .openBi)
  | .connecting, .failed text => some (.ready (.error (.quic text)))
  | .openBi, .done => some (.pending .handshake)
  | .openBi, .failed text => some (.ready (.error (.quic text)))
  | .handshake, .handshaken remotePubkey =>
      some (.ready (.ok (.direct remotePubkey)))
  | .handshake, .refused error => some (.ready (.error error))
  | _, _ => none

inductive RelayStage where
  | connect
  | writeToken
  | awaitPairing
  | handshake
  deriving DecidableEq

/-- Rust's `{:#x}` of a byte. -/
def hexByte (sig : UInt8) : String :=
  "0x" ++ String.ofList (Nat.toDigits 16 sig.toNat)

/-- `connect_via_relay`, then the handshake over the relayed stream. -/
def connectThroughRelay {Key : Type} : RelayStage → NetEvent Key →
    Option (Poll RelayStage ConnectError (ConnectedSession Key))
  | .connect, .done => some (.pending .writeToken)
  | .connect, .failed text =>
      some (.ready (.error (.connectionFailed ("relay connect: " ++ text))))
  | .writeToken, .done => some (.pending .awaitPairing)
  | .writeToken, .failed text => some (.ready (.error (.io text)))
  | .awaitPairing, .pairing sig =>
      if sig = 1 then some (.pending .handshake)
      else some (.ready (.error (.connectionFailed
        ("relay: unexpected pairing byte " ++ hexByte sig))))
  | .awaitPairing, .elapsed =>
      some (.ready (.error
        (.connectionFailed "relay: timed out waiting for peer")))
  | .awaitPairing, .failed text => some (.ready (.error (.io text)))
  | .handshake, .handshaken remotePubkey =>
      some (.ready (.ok (.relay remotePubkey)))
  | .handshake, .refused error => some (.ready (.error error))
  | _, _ => none

inductive PunchStage where
  | receiving
  /-- The punches still sent after the peer's has arrived. -/
  | warming (left : ℕ)
  deriving DecidableEq

def punchMagic : List UInt8 :=
  "p2pshare-punch".toList.map fun c => UInt8.ofNat c.toNat

/-- `hole_punch` at its receiving end.  The buffer holds 64 bytes. -/
def holePunch {Key : Type} (peer : SocketAddr) : PunchStage → NetEvent Key →
    Option (Poll PunchStage ConnectError Unit)
  | .receiving, .datagram bytes addr =>
      if addr = peer ∧ bytes.take 64 = punchMagic then
        some (.pending (.warming 10))
      else some (.pending .receiving)
  | .receiving, .failed text => some (.ready (.error (.io text)))
  | .receiving, .elapsed => some (.ready (.error .holePunchTimeout))
  | .warming (left + 1), .elapsed =>
      if left = 0 then some (.ready (.ok ())) else some (.pending (.warming left))
  | _, _ => none

def RelayStage.Fails {Key : Type} : RelayStage → NetEvent Key → Prop
  | .connect, .failed _ => True
  | .writeToken, .failed _ => True
  | .awaitPairing, .failed _ => True
  | .awaitPairing, .elapsed => True
  | .awaitPairing, .pairing sig => sig ≠ 1
  | .handshake, .refused _ => True
  | _, _ => False

section Steps

variable {Key : Type} {event : NetEvent Key}

theorem dial_ne_panicked {stage : DialStage} :
    dial stage event ≠ some .panicked := by
  unfold dial
  split <;> simp

theorem connectThroughRelay_ne_panicked {stage : RelayStage} :
    connectThroughRelay stage event ≠ some .panicked := by
  unfold connectThroughRelay
  split <;> try simp
  split <;> simp

theorem connectThroughRelay_failed_iff {stage : RelayStage}
    {poll : Poll RelayStage ConnectError (ConnectedSession Key)}
    (hrelay : connectThroughRelay stage event = some poll) :
    poll.Failed ↔ stage.Fails event := by
  unfold connectThroughRelay at hrelay
  split at hrelay
  case h_5 sig =>
      split at hrelay
      next hsig =>
          cases hrelay
          simp [Poll.Failed, RelayStage.Fails, hsig]
      next hsig =>
          cases hrelay
          simp [Poll.Failed, RelayStage.Fails, hsig]
  all_goals cases hrelay
  all_goals simp [Poll.Failed, RelayStage.Fails]

theorem holePunch_ne_panicked {peer : SocketAddr} {stage : PunchStage} :
    holePunch peer stage event ≠ some .panicked := by
  unfold holePunch
  split
  · split <;> simp
  · simp
  · simp
  · split <;> simp
  · simp

end Steps

end P2pShare
