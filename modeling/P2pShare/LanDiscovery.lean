import P2pShare.RacingFutures

/-!
# LAN discovery

The receiver races listeners for the sender's announcement: a multicast and a
broadcast socket, and an mDNS browser.  Each reads announcements until one
carries its share code.
-/

namespace P2pShare

open RacingFutures TransitionMachine

/-- The variants of the source's error that connecting can meet. -/
inductive ConnectError where
  | io (text : String)
  | quic (text : String)
  | noise (text : String)
  | connectionFailed (text : String)
  | peerNotFound
  | holePunchTimeout
  deriving DecidableEq

inductive IpAddr where
  | v4 (a b c d : UInt8)
  | v6 (segments : BitVec 128)
  deriving DecidableEq

def IpAddr.isIpv4 : IpAddr → Bool
  | v4 _ _ _ _ => true
  | v6 _ => false

def IpAddr.isLoopback : IpAddr → Bool
  | v4 a _ _ _ => a == 127
  | v6 segments => segments == 1

structure SocketAddr where
  ip : IpAddr
  port : ℕ
  deriving DecidableEq

/-- What the operations that connecting awaits can answer. -/
inductive NetEvent (Key : Type) where
  | done
  /-- A foreign operation failed with this text. -/
  | failed (text : String)
  /-- An operation of the crate failed with this error. -/
  | refused (error : ConnectError)
  /-- The running sleep or time limit is over. -/
  | elapsed
  | datagram (bytes : List UInt8) (peer : SocketAddr)
  | resolved (code : Option String) (addresses : List IpAddr) (port : ℕ)
  | otherService
  | peers (found : List SocketAddr)
  | external (addr : Option SocketAddr)
  | localPort (port : ℕ)
  | incoming
  | endpointClosed
  | handshaken (remotePubkey : Key)
  | pairing (sig : UInt8)
  deriving DecidableEq

/-! ## Announcements -/

namespace Announcement

def headerText : List Char :=
  "XEND1:".toList

/-- The text before the first `": "`, and the text after it. -/
def splitOnce : List Char → List Char × Option (List Char)
  | [] => ([], none)
  | ':' :: ' ' :: rest => ([], some rest)
  | c :: rest => (c :: (splitOnce rest).1, (splitOnce rest).2)

def isWhitespace (c : Char) : Bool :=
  (9 ≤ c.toNat && c.toNat ≤ 13) || (0x2000 ≤ c.toNat && c.toNat ≤ 0x200a) ||
    [0x20, 0x85, 0xa0, 0x1680, 0x2028, 0x2029, 0x202f, 0x205f, 0x3000].contains
      c.toNat

def trim (text : List Char) : List Char :=
  ((text.dropWhile isWhitespace).reverse.dropWhile isWhitespace).reverse

def digitsValue (digits : List Char) : ℕ :=
  digits.foldl (fun value c => value * 10 + (c.toNat - 48)) 0

/-- The text as a `u16`: digits, with a plus sign in front or none. -/
def parsePort (text : List Char) : Option ℕ :=
  let digits := match text with
    | '+' :: rest => rest
    | _ => text
  if digits ≠ [] ∧ digits.all Char.isDigit ∧ digitsValue digits < 65536 then
    some (digitsValue digits)
  else none

end Announcement

/-- Unicode's full upper-case mapping, character by character. -/
def toUppercase (upper : Char → List Char) (text : List Char) : List Char :=
  text.flatMap upper

open Announcement in
/-- What a received datagram announces for this code: `XEND1:CODE: PORT` from
the peer's address.  The buffer holds 256 bytes. -/
def announcedAddr (upper : Char → List Char) (codeUpper : List Char)
    (bytes : List UInt8) (peer : SocketAddr) : Option SocketAddr :=
  match String.fromUTF8? ⟨(bytes.take 256).toArray⟩ with
  | none => none
  | some msg =>
      if headerText.isPrefixOf msg.toList then
        let parts := splitOnce (msg.toList.drop headerText.length)
        if toUppercase upper (trim parts.1) = codeUpper then
          match parts.2.bind fun port => parsePort (trim port) with
          | some port => if 0 < port then some ⟨peer.ip, port⟩ else none
          | none => none
        else none
      else none

/-- The address of a resolved service: a non-loopback IPv4 address if it has
one, else any. -/
def serviceIp (addresses : List IpAddr) : Option IpAddr :=
  (addresses.find? fun ip => ip.isIpv4 && !ip.isLoopback).or addresses.head?

/-! ## The listeners -/

inductive Listener where
  | multicast
  | broadcast
  | mdns
  deriving DecidableEq

/-- `opening` binds the socket (or starts the daemon), `configuring` makes it
usable (or starts browsing). -/
inductive ListenStage where
  | opening
  | configuring
  | receiving
  deriving DecidableEq

/-- What the receiver's device and call fix. -/
structure LookupSetting where
  upper : Char → List Char
  code : List Char
  ios : Bool
  allowRelay : Bool

section Listeners

variable {Key : Type} (setting : LookupSetting)

/-- The upper-case code that the call hands to its listeners. -/
def LookupSetting.codeUpper : List Char :=
  toUppercase setting.upper setting.code

/-- What an event means to a listener that is receiving: nothing it awaits,
something to skip, or its result. -/
inductive Heard where
  | unawaited
  | skipped
  | result (result : Except ConnectError SocketAddr)

def heardDatagram : NetEvent Key → Heard
  | .datagram bytes peer =>
      match announcedAddr setting.upper
          (toUppercase setting.upper setting.codeUpper) bytes peer with
      | some addr => .result (.ok addr)
      | none => .skipped
  | _ => .unawaited

def heardService : NetEvent Key → Heard
  | .resolved code addresses port =>
      if toUppercase setting.upper (code.getD "").toList =
          toUppercase setting.upper setting.codeUpper then
        match serviceIp addresses with
        | some ip => .result (.ok ⟨ip, port⟩)
        | none =>
            .result (.error
              (.connectionFailed "mDNS: resolved service has no addresses"))
      else .skipped
  | .otherService => .skipped
  | _ => .unawaited

/-- The two steps that make a listener ready, then its loop.  The three texts
are those of the errors of each. -/
def listen (openText configText receiveText : String → String)
    (heard : NetEvent Key → Heard) :
    ListenStage → NetEvent Key →
      Option (Poll ListenStage ConnectError SocketAddr)
  | .opening, .done => some (.pending .configuring)
  | .opening, .failed text =>
      some (.ready (.error (.connectionFailed (openText text))))
  | .configuring, .done => some (.pending .receiving)
  | .configuring, .failed text =>
      some (.ready (.error (.connectionFailed (configText text))))
  | .receiving, .failed text =>
      some (.ready (.error (.connectionFailed (receiveText text))))
  | .receiving, event =>
      match heard event with
      | .unawaited => none
      | .skipped => some (.pending .receiving)
      | .result result => some (.ready result)
  | _, _ => none

/-- On iOS the listener fails at once. -/
def listenForMulticast :
    Future ListenStage (NetEvent Key) ConnectError SocketAddr where
  start :=
    if setting.ios then
      .ready (.error
        (.connectionFailed "iOS: custom multicast receive disabled"))
    else .pending .opening
  resume := listen ("multicast recv socket: " ++ ·) ("multicast async wrap: " ++ ·)
    ("recv multicast: " ++ ·) (heardDatagram setting)

def listenForBroadcast :
    Future ListenStage (NetEvent Key) ConnectError SocketAddr where
  start := .pending .opening
  resume := listen ("broadcast listen: " ++ ·) ("set broadcast: " ++ ·)
    ("recv broadcast: " ++ ·) (heardDatagram setting)

def browseForCode :
    Future ListenStage (NetEvent Key) ConnectError SocketAddr where
  start := .pending .opening
  resume := listen ("mDNS daemon: " ++ ·) ("mDNS browse: " ++ ·)
    (fun _ => "mDNS browse channel closed") (heardService setting)

def Listener.future (Key : Type) (setting : LookupSetting) :
    Listener → Future ListenStage (NetEvent Key) ConnectError SocketAddr
  | .multicast => listenForMulticast setting
  | .broadcast => listenForBroadcast setting
  | .mdns => browseForCode setting

/-- The race of some listeners.  Each branch is `Ok(addr) = ..`, and there is no
`else`. -/
def discovery (Key : Type) (setting : LookupSetting)
    (listeners : List Listener) :
    Select { listener // listener ∈ listeners } (fun _ => ListenStage)
      (fun _ => NetEvent Key) ConnectError SocketAddr where
  arms := fun listener => listener.1.future Key setting
  order := listeners.attach
  complete := fun listener => List.mem_attach _ listener
  refutable := fun _ => true
  otherwise := none

/-- The failures of one listener: an operation on its socket or daemon fails, or
a service that announces the code has no address. -/
def Listener.Fails (listener : Listener) (stage : ListenStage)
    (event : NetEvent Key) : Prop :=
  (∃ text, event = .failed text) ∨
    (listener = .mdns ∧ stage = .receiving ∧ ∃ code port,
      event = .resolved code [] port ∧
        toUppercase setting.upper (code.getD "").toList =
          toUppercase setting.upper setting.codeUpper)

end Listeners

/-! ## What one event does to a listener -/

theorem serviceIp_eq_none_iff {addresses : List IpAddr} :
    serviceIp addresses = none ↔ addresses = [] := by
  cases addresses with
  | nil => simp [serviceIp]
  | cons ip rest => simp [serviceIp]

section Steps

variable {Key : Type} {setting : LookupSetting}

theorem listen_cases {openText configText receiveText : String → String}
    {heard : NetEvent Key → Heard} {stage : ListenStage}
    {event : NetEvent Key} {poll : Poll ListenStage ConnectError SocketAddr}
    (hlisten : listen openText configText receiveText heard stage event =
      some poll) :
    ((∃ text, event = .failed text) ∧ poll.Failed) ∨
      (event = .done ∧ ∃ next, poll = .pending next) ∨
      (stage = .receiving ∧ heard event = .skipped ∧
        poll = .pending .receiving) ∨
      (stage = .receiving ∧ (∀ text, event ≠ .failed text) ∧
        ∃ result, heard event = .result result ∧ poll = .ready result) := by
  unfold listen at hlisten
  split at hlisten
  · cases hlisten
    exact Or.inr (Or.inl ⟨rfl, _, rfl⟩)
  next text =>
      cases hlisten
      exact Or.inl ⟨⟨text, rfl⟩, trivial⟩
  · cases hlisten
    exact Or.inr (Or.inl ⟨rfl, _, rfl⟩)
  next text =>
      cases hlisten
      exact Or.inl ⟨⟨text, rfl⟩, trivial⟩
  next text =>
      cases hlisten
      exact Or.inl ⟨⟨text, rfl⟩, trivial⟩
  next hnot =>
      split at hlisten
      · contradiction
      next hheard =>
          cases hlisten
          exact Or.inr (Or.inr (Or.inl ⟨rfl, hheard, rfl⟩))
      next result hheard =>
          cases hlisten
          exact Or.inr (Or.inr (Or.inr ⟨rfl, hnot, result, hheard, rfl⟩))
  · contradiction

theorem heardDatagram_ne_error {event : NetEvent Key} {error : ConnectError} :
    heardDatagram setting event ≠ .result (.error error) := by
  unfold heardDatagram
  split
  · split
    · simp
    · simp
  · simp

theorem heardService_eq_error_iff {event : NetEvent Key} :
    (∃ error, heardService setting event = .result (.error error)) ↔
      ∃ code port, event = .resolved code [] port ∧
        toUppercase setting.upper (code.getD "").toList =
          toUppercase setting.upper setting.codeUpper := by
  constructor
  · rintro ⟨error, herror⟩
    unfold heardService at herror
    split at herror
    next code addresses port =>
        split at herror
        next hcode =>
            split at herror
            next => cases herror
            next hnone =>
                have hnil := serviceIp_eq_none_iff.mp hnone
                exact ⟨code, port, by rw [hnil], hcode⟩
        next => cases herror
    next => cases herror
    next => cases herror
  · rintro ⟨code, port, rfl, hcode⟩
    refine ⟨.connectionFailed "mDNS: resolved service has no addresses", ?_⟩
    have hnone : serviceIp [] = none := serviceIp_eq_none_iff.mpr rfl
    simp only [heardService, if_pos hcode, hnone]

theorem Listener.resume_cases {listener : Listener} {stage : ListenStage}
    {event : NetEvent Key} {poll : Poll ListenStage ConnectError SocketAddr}
    (hresume : (listener.future Key setting).resume stage event = some poll) :
    ∃ (openText configText receiveText : String → String)
      (heard : NetEvent Key → Heard),
      listen openText configText receiveText heard stage event = some poll ∧
        (∀ error, heard event = .result (.error error) →
          listener = .mdns ∧
            heardService setting event = .result (.error error)) ∧
        (listener = .mdns → heard event = heardService setting event) := by
  cases listener with
  | multicast =>
      refine ⟨_, _, _, heardDatagram setting, hresume, ?_, ?_⟩
      · intro error herror
        exact absurd herror heardDatagram_ne_error
      · intro hbad
        contradiction
  | broadcast =>
      refine ⟨_, _, _, heardDatagram setting, hresume, ?_, ?_⟩
      · intro error herror
        exact absurd herror heardDatagram_ne_error
      · intro hbad
        contradiction
  | mdns =>
      refine ⟨_, _, _, heardService setting, hresume, ?_, fun _ => rfl⟩
      intro error herror
      exact ⟨rfl, herror⟩

theorem Listener.resume_ne_panicked {listener : Listener}
    {stage : ListenStage} {event : NetEvent Key}
    {poll : Poll ListenStage ConnectError SocketAddr}
    (hresume : (listener.future Key setting).resume stage event = some poll) :
    poll ≠ .panicked := by
  obtain ⟨_, _, _, _, hlisten, _, _⟩ := resume_cases hresume
  obtain ⟨_, hfailed⟩ | ⟨_, _, rfl⟩ | ⟨_, _, rfl⟩ | ⟨_, _, _, _, rfl⟩ :=
    listen_cases hlisten
  · intro hbad
    rw [hbad] at hfailed
    exact hfailed
  · simp
  · simp
  · simp

/-- A listener ends in an error exactly on the events that fail it. -/
theorem Listener.resume_failed_iff {listener : Listener}
    {stage : ListenStage} {event : NetEvent Key}
    {poll : Poll ListenStage ConnectError SocketAddr}
    (hresume : (listener.future Key setting).resume stage event = some poll) :
    poll.Failed ↔ listener.Fails setting stage event := by
  obtain ⟨_, _, _, heard, hlisten, herror, hheard⟩ := resume_cases hresume
  unfold Fails
  obtain ⟨htext, hfailed⟩ | ⟨rfl, next, rfl⟩ | ⟨rfl, hskip, rfl⟩ |
    ⟨rfl, hnot, result, hresult, rfl⟩ := listen_cases hlisten
  · simp [hfailed, htext]
  · simp [Poll.Failed]
  · simp only [Poll.Failed, false_iff, not_or]
    constructor
    · rintro ⟨text, rfl⟩
      cases listener with
      | multicast => simp [future, listenForMulticast, listen] at hresume
      | broadcast => simp [future, listenForBroadcast, listen] at hresume
      | mdns => simp [future, browseForCode, listen] at hresume
    · rintro ⟨hmdns, _, hresolved⟩
      obtain ⟨error, hbad⟩ := heardService_eq_error_iff.mpr hresolved
      rw [← hheard hmdns, hskip] at hbad
      cases hbad
  · have hnone : ¬ ∃ text, event = .failed text := by
      rintro ⟨text, htext⟩
      exact hnot text htext
    simp only [hnone, false_or]
    constructor
    · intro hfailed
      obtain ⟨error, hready⟩ := Poll.failed_iff.mp hfailed
      cases hready
      obtain ⟨hmdns, hservice⟩ := herror error hresult
      exact ⟨hmdns, trivial, heardService_eq_error_iff.mp ⟨error, hservice⟩⟩
    · rintro ⟨hmdns, _, hresolved⟩
      obtain ⟨error, hservice⟩ := heardService_eq_error_iff.mpr hresolved
      rw [← hheard hmdns, hresult] at hservice
      cases hservice
      trivial

end Steps

/-! ## The race of the listeners -/

section Race

variable {Key : Type} {setting : LookupSetting} {listeners : List Listener}

/-- The listener that takes the event fails on it, and all the others have
failed before. -/
def LastListenerFails (setting : LookupSetting)
    (found : { listener // listener ∈ listeners } →
      Poll ListenStage ConnectError SocketAddr)
    (event : Σ _ : { listener // listener ∈ listeners }, NetEvent Key) :
    Prop :=
  (∃ stage, found event.1 = .pending stage ∧
    event.1.1.Fails setting stage event.2) ∧
  ∀ other, other ≠ event.1 → (found other).Failed

theorem discovery_panicked_iff
    {found : { listener // listener ∈ listeners } →
      Poll ListenStage ConnectError SocketAddr}
    {event : Σ _ : { listener // listener ∈ listeners }, NetEvent Key}
    {poll : Poll _ ConnectError SocketAddr}
    (hclean : ∀ listener, found listener ≠ .panicked)
    (hresume : (discovery Key setting listeners).future.resume found event =
      some poll) :
    poll = .panicked ↔ LastListenerFails setting found event := by
  obtain ⟨after, hadvance, rfl⟩ := Option.map_eq_some_iff.mp hresume
  obtain ⟨stage, heard, hpending, hheard, rfl⟩ :=
    Select.advance_eq_some.mp hadvance
  constructor
  · intro hpanicked
    obtain ⟨listener, hslot⟩ | ⟨_, hfailed⟩ := Select.panic_of_settle hpanicked
    · by_cases hsame : listener = event.1
      · subst hsame
        rw [Function.update_self] at hslot
        exact absurd hslot (Listener.resume_ne_panicked hheard)
      · rw [Function.update_of_ne hsame] at hslot
        exact absurd hslot (hclean listener)
    · constructor
      · have hself := hfailed event.1
        rw [Function.update_self] at hself
        exact ⟨stage, hpending, (Listener.resume_failed_iff hheard).mp hself⟩
      · intro other hother
        have hbefore := hfailed other
        rwa [Function.update_of_ne hother] at hbefore
  · rintro ⟨⟨stage', hstage', hfails⟩, hothers⟩
    rw [hpending] at hstage'
    cases hstage'
    have hself : heard.Failed := (Listener.resume_failed_iff hheard).mpr hfails
    have hfailed : ∀ listener,
        (Function.update found event.1 heard listener).Failed := by
      intro listener
      by_cases hsame : listener = event.1
      · subst hsame
        rwa [Function.update_self]
      · rw [Function.update_of_ne hsame]
        exact hothers listener hsame
    rw [Select.settle_of_failed (fun _ => rfl) hfailed]
    rfl

end Race

end P2pShare
