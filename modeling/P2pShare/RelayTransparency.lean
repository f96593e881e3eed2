import P2pShare.RelayPairing

/-!
# What the clients of the relay read

A client that is paired reads the signal byte and then a prefix of what its
partner wrote after the token; a client that is not paired reads nothing.
-/

namespace P2pShare

open ByteStream TransitionMachine

/-- How much of a connection the relay has read before the connection is
paired. -/
def Handler.presented (handler : Handler) : ℕ :=
  if handler.token?.isSome then tokenLength else 0

namespace Connection

/-- What the target got and what the copy loop holds is what was read from the
source after its token. -/
def Forwarded (source target : Connection) (copy : Copy) : Prop :=
  tokenLength ≤ source.taken ∧
    ∃ bytes, target.got = 1 :: bytes ∧
      bytes ++ copy.buffer = (source.wrote.take source.taken).drop tokenLength

/-- The target got nothing, or the signal byte and a prefix of what the source
wrote after its token. -/
def Delivered (source target : Connection) : Prop :=
  target.got = [] ∨
    ∃ bytes, target.got = 1 :: bytes ∧ bytes <+: source.wrote.drop tokenLength

variable {source target grown : Connection} {copy : Copy}

theorem Forwarded.delivered (hforwarded : Forwarded source target copy) :
    Delivered source target := by
  rcases hforwarded with ⟨_, bytes, hgot, hbytes⟩
  refine Or.inr ⟨bytes, hgot, ?_⟩
  calc
    bytes <+: bytes ++ copy.buffer := List.prefix_append _ _
    _ = (source.wrote.take source.taken).drop tokenLength := hbytes
    _ <+: source.wrote.drop tokenLength :=
      (List.take_prefix _ _).drop _

/-- The source has written more. -/
theorem Forwarded.grow {bytes : Bytes} (hforwarded : Forwarded source target copy)
    (htaken : source.taken ≤ source.wrote.length)
    (hwrote : grown.wrote = source.wrote ++ bytes)
    (hread : grown.taken = source.taken) : Forwarded grown target copy := by
  rcases hforwarded with ⟨hle, delivered, hgot, hbytes⟩
  refine ⟨hread ▸ hle, delivered, hgot, ?_⟩
  rw [hwrote, hread, List.take_append_of_le_length htaken]
  exact hbytes

theorem Delivered.grow {bytes : Bytes} (hdelivered : Delivered source target)
    (hwrote : grown.wrote = source.wrote ++ bytes) : Delivered grown target := by
  rcases hdelivered with hnone | ⟨delivered, hgot, hprefix⟩
  · exact Or.inl hnone
  · refine Or.inr ⟨delivered, hgot, hprefix.trans ?_⟩
    rw [hwrote]
    exact (List.prefix_append _ _).drop _

end Connection

/-- What the connections of a pair have got. -/
def Handler.Talk : Handler → Connection → Connection → Prop
  | .signalFirst _ _, self, peer =>
      self.got = [] ∧ peer.got = [] ∧ self.taken = tokenLength ∧
        peer.taken = tokenLength
  | .signalPeer _ _, self, peer =>
      self.got = [1] ∧ peer.got = [] ∧ self.taken = tokenLength ∧
        peer.taken = tokenLength
  | .piping _ _ toPeer fromPeer, self, peer =>
      Connection.Forwarded self peer toPeer ∧
        Connection.Forwarded peer self fromPeer
  | .returned _ _, self, peer =>
      Connection.Delivered self peer ∧ Connection.Delivered peer self
  | _, _, _ => True

namespace Handler

variable {handler : Handler} {self peer self' peer' : Connection}

theorem Talk.delivered {other : ℕ} (hpeer : handler.peer? = some other)
    (htalk : handler.Talk self peer) :
    Connection.Delivered self peer ∧ Connection.Delivered peer self := by
  cases handler with
  | signalFirst token other => exact ⟨Or.inl htalk.2.1, Or.inl htalk.1⟩
  | signalPeer token other =>
      refine ⟨Or.inl htalk.2.1, Or.inr ⟨[], htalk.1, ?_⟩⟩
      exact List.nil_prefix
  | piping token other toPeer fromPeer =>
      exact ⟨htalk.1.delivered, htalk.2.delivered⟩
  | returned token other => exact htalk
  | _ => contradiction

/-- One of the two clients, or neither, has written more. -/
theorem Talk.grow {bytes bytes' : Bytes} (htalk : handler.Talk self peer)
    (hself : self.taken ≤ self.wrote.length)
    (hpeer : peer.taken ≤ peer.wrote.length)
    (hwrote : self'.wrote = self.wrote ++ bytes)
    (hwrote' : peer'.wrote = peer.wrote ++ bytes')
    (htaken : self'.taken = self.taken) (htaken' : peer'.taken = peer.taken)
    (hgot : self'.got = self.got) (hgot' : peer'.got = peer.got) :
    handler.Talk self' peer' := by
  cases handler with
  | signalFirst token other =>
      simp only [Talk, hgot, hgot', htaken, htaken']
      exact htalk
  | signalPeer token other =>
      simp only [Talk, hgot, hgot', htaken, htaken']
      exact htalk
  | piping token other toPeer fromPeer =>
      rcases htalk with ⟨hto, hfrom⟩
      have hto' := hto.grow hself hwrote htaken
      have hfrom' := hfrom.grow hpeer hwrote' htaken'
      simp only [Talk, Connection.Forwarded, hgot, hgot']
      exact ⟨hto', hfrom'⟩
  | returned token other =>
      rcases htalk with ⟨hto, hfrom⟩
      have hto' := hto.grow hwrote
      have hfrom' := hfrom.grow hwrote'
      simp only [Talk, Connection.Delivered, hgot, hgot']
      exact ⟨hto', hfrom'⟩
  | _ => trivial

end Handler

namespace Relay

structure Streams (s : Relay) : Prop where
  taken : ∀ c, (s.connections c).taken ≤ (s.connections c).wrote.length
  token : ∀ c token, (s.handlers c).token? = some token →
    tokenLength ≤ (s.connections c).wrote.length ∧
      token = (s.connections c).wrote.take tokenLength
  quiet : ∀ c, (∀ d, ¬ s.Piped c d) →
    (s.connections c).got = [] ∧
      (s.connections c).taken = (s.handlers c).presented
  talk : ∀ h p, (s.handlers h).peer? = some p →
    (s.handlers h).Talk (s.connections h) (s.connections p)

variable {s t : Relay}

theorem not_piped {c : ℕ} (hs : s.Registry)
    (hpeer : (s.handlers c).peer? = none)
    (hhanded : ∀ token first, s.handlers c ≠ .handed token first) (d : ℕ) :
    ¬ s.Piped c d := by
  intro hpiped
  rcases hpiped with h | h
  · rw [hpeer] at h
    contradiction
  · rcases hs.handed h with ⟨token, hstate⟩
    exact hhanded token d hstate

/-- The tasks that move are not paired, before or after, and keep their
tokens. -/
theorem Streams.frame (hstreams : s.Streams)
    (hconnections : t.connections = s.connections)
    (hhandlers : ∀ c, t.handlers c = s.handlers c ∨
      (s.handlers c).peer? = none ∧ (t.handlers c).peer? = none ∧
        (t.handlers c).token? = (s.handlers c).token?) : t.Streams := by
  have hpeer : ∀ c, (t.handlers c).peer? = (s.handlers c).peer? := by
    intro c
    rcases hhandlers c with hsame | ⟨hold, hnew, _⟩
    · rw [hsame]
    · rw [hold, hnew]
  have htoken : ∀ c, (t.handlers c).token? = (s.handlers c).token? := by
    intro c
    rcases hhandlers c with hsame | ⟨_, _, htoken⟩
    · rw [hsame]
    · exact htoken
  constructor
  · rw [hconnections]
    exact hstreams.taken
  · intro c token hc
    rw [htoken] at hc
    rw [hconnections]
    exact hstreams.token c token hc
  · intro c hc
    have hquiet := hstreams.quiet c fun d hd => by
      apply hc d
      unfold Piped at hd ⊢
      rw [hpeer, hpeer]
      exact hd
    rw [hconnections, Handler.presented, htoken]
    exact hquiet
  · intro h p hp
    rw [hpeer] at hp
    rcases hhandlers h with hsame | ⟨hnone, _, _⟩
    · rw [hsame, hconnections]
      exact hstreams.talk h p hp
    · rw [hnone] at hp
      contradiction

/-- A client has written, or has closed its side. -/
theorem Streams.grow (hstreams : s.Streams) (hhandlers : t.handlers = s.handlers)
    (hwrote : ∀ c, ∃ bytes,
      (t.connections c).wrote = (s.connections c).wrote ++ bytes)
    (htaken : ∀ c, (t.connections c).taken = (s.connections c).taken)
    (hgot : ∀ c, (t.connections c).got = (s.connections c).got) :
    t.Streams := by
  constructor
  · intro c
    rcases hwrote c with ⟨bytes, hbytes⟩
    have hold := hstreams.taken c
    rw [htaken, hbytes, List.length_append]
    omega
  · intro c token hc
    rcases hwrote c with ⟨bytes, hbytes⟩
    rw [hhandlers] at hc
    rcases hstreams.token c token hc with ⟨hlength, htoken⟩
    rw [hbytes, List.length_append, List.take_append_of_le_length hlength]
    exact ⟨by omega, htoken⟩
  · intro c hc
    rw [hgot, htaken, hhandlers]
    apply hstreams.quiet c
    intro d hd
    apply hc d
    unfold Piped at hd ⊢
    rw [hhandlers]
    exact hd
  · intro h p hp
    rw [hhandlers] at hp ⊢
    rcases hwrote h with ⟨bytes, hbytes⟩
    rcases hwrote p with ⟨bytes', hbytes'⟩
    exact (hstreams.talk h p hp).grow (hstreams.taken h) (hstreams.taken p)
      hbytes hbytes' (htaken h) (htaken p) (hgot h) (hgot p)

/-- The task of one pair moves, and touches no other connection. -/
theorem Streams.pair {id peer : ℕ} {new : Handler} (hs : s.Registry)
    (hstreams : s.Streams) (hid : (s.handlers id).peer? = some peer)
    (hnew : new.peer? = some peer)
    (htoken : new.token? = (s.handlers id).token?)
    (hhandlers : t.handlers = Function.update s.handlers id new)
    (hothers : ∀ c, c ≠ id → c ≠ peer → t.connections c = s.connections c)
    (hwrote : ∀ c, (t.connections c).wrote = (s.connections c).wrote)
    (htaken : ∀ c, (t.connections c).taken ≤ (t.connections c).wrote.length)
    (htalk : new.Talk (t.connections id) (t.connections peer)) :
    t.Streams := by
  have hpeers : ∀ c, (t.handlers c).peer? = (s.handlers c).peer? := by
    intro c
    rw [hhandlers]
    by_cases hc : c = id
    · subst c
      rw [Function.update_self, hnew, hid]
    · rw [Function.update_of_ne hc]
  constructor
  · exact htaken
  · intro c token hc
    rw [hwrote]
    apply hstreams.token c token
    rw [← hc, hhandlers]
    by_cases hcid : c = id
    · subst c
      rw [Function.update_self, htoken]
    · rw [Function.update_of_ne hcid]
  · intro c hc
    have hold : ∀ d, ¬ s.Piped c d := by
      intro d hd
      apply hc d
      unfold Piped at hd ⊢
      rw [hpeers, hpeers]
      exact hd
    have hcid : c ≠ id := by
      rintro rfl
      exact hold peer (Or.inl hid)
    have hcpeer : c ≠ peer := by
      rintro rfl
      exact hold id (Or.inr hid)
    rw [hothers c hcid hcpeer, hhandlers, Function.update_of_ne hcid]
    exact hstreams.quiet c hold
  · intro h p hp
    rw [hpeers] at hp
    by_cases hhid : h = id
    · subst h
      rw [hid] at hp
      cases hp
      rw [hhandlers, Function.update_self]
      exact htalk
    · have hhpeer : h ≠ peer := by
        rintro rfl
        rw [hs.peer?_of_handed hid] at hp
        contradiction
      have hpid : p ≠ id := by
        rintro rfl
        rw [hs.peer?_of_handed hp] at hid
        contradiction
      have hppeer : p ≠ peer := by
        rintro rfl
        exact hhid (hs.host_unique hp hid)
      rw [hhandlers, Function.update_of_ne hhid, hothers h hhid hhpeer,
        hothers p hpid hppeer]
      exact hstreams.talk h p hp

end Relay

/-! ## One step -/

theorem Copy.poll_eq_some {copy next : Copy} {source : Connection}
    {step : CopyStep} {read : ℕ} {bytes : Bytes}
    (hpoll : copy.poll source step = some (next, read, bytes)) :
    ∃ arrived,
      arrived = (source.wrote.drop source.taken).take read ∧
        arrived.length = read ∧
        bytes ++ next.buffer = copy.buffer ++ arrived := by
  cases step with
  | idle =>
      cases hpoll
      exact ⟨[], rfl, rfl, (List.append_nil _).symm⟩
  | moves count written =>
      simp only [poll] at hpoll
      split at hpoll
      next => contradiction
      next =>
        cases hpoll
        refine ⟨(source.wrote.drop source.taken).take count, ?_, rfl, ?_⟩
        · rw [List.length_take, List.take_eq_take_min]
        · exact List.take_append_drop written _
  | endOfStream =>
      simp only [poll] at hpoll
      split at hpoll
      next hend =>
        cases hpoll
        exact ⟨[], rfl, rfl, by rw [hend.2.2.2]⟩
      next => contradiction
  | fails =>
      simp only [poll] at hpoll
      split at hpoll
      next => contradiction
      next =>
        cases hpoll
        exact ⟨[], rfl, rfl, (List.append_nil _).symm⟩

namespace Connection

/-- One poll of a copy loop keeps the bytes in order. -/
theorem Forwarded.poll {source target source' target' : Connection}
    {copy next : Copy} {step : CopyStep} {read : ℕ} {bytes : Bytes}
    (hforwarded : Forwarded source target copy)
    (hpoll : copy.poll source step = some (next, read, bytes))
    (hwrote : source'.wrote = source.wrote)
    (htaken : source'.taken = source.taken + read)
    (hgot : target'.got = target.got ++ bytes) :
    Forwarded source' target' next := by
  rcases hforwarded with ⟨hle, delivered, htarget, hbytes⟩
  rcases Copy.poll_eq_some hpoll with ⟨arrived, harrived, _, hbuffer⟩
  refine ⟨by omega, delivered ++ bytes, ?_, ?_⟩
  · rw [hgot, htarget]
    rfl
  · by_cases hlength : source.taken ≤ source.wrote.length
    · have hshort : tokenLength ≤ (source.wrote.take source.taken).length := by
        rw [List.length_take]
        omega
      calc
        (delivered ++ bytes) ++ next.buffer =
            (delivered ++ copy.buffer) ++ arrived := by
          rw [List.append_assoc, hbuffer, List.append_assoc]
        _ = (source.wrote.take source.taken).drop tokenLength ++ arrived := by
          rw [hbytes]
        _ = (source.wrote.take source.taken ++ arrived).drop tokenLength :=
          (List.drop_append_of_le_length hshort).symm
        _ = (source'.wrote.take source'.taken).drop tokenLength := by
          rw [hwrote, htaken, List.take_add, harrived]
    · have hall : source.wrote.drop source.taken = [] :=
        List.drop_of_length_le (by omega)
      rw [hall, List.take_nil] at harrived
      rw [hwrote, htaken, List.append_assoc, hbuffer, harrived,
        List.append_nil, hbytes, List.take_of_length_le (by omega),
        List.take_of_length_le (by omega)]

theorem taken_le_of_poll {source : Connection} {copy next : Copy}
    {step : CopyStep} {read : ℕ} {bytes : Bytes}
    (hpoll : copy.poll source step = some (next, read, bytes))
    (htaken : source.taken ≤ source.wrote.length) :
    source.taken + read ≤ source.wrote.length := by
  rcases Copy.poll_eq_some hpoll with ⟨arrived, harrived, hlength, _⟩
  rw [harrived, List.length_take, List.length_drop] at hlength
  omega

end Connection

namespace Relay

variable {s t : Relay}

theorem connections_poll {id peer readTo readFrom : ℕ} {bytesTo bytesFrom : Bytes}
    {handler : Handler} (hne : id ≠ peer)
    (ht : t = ((((s.take id readTo).write peer bytesTo).take peer
      readFrom).write id bytesFrom).setHandler id handler) :
    t.connections id =
        { s.connections id with
          taken := (s.connections id).taken + readTo
          got := (s.connections id).got ++ bytesFrom } ∧
      t.connections peer =
        { s.connections peer with
          taken := (s.connections peer).taken + readFrom
          got := (s.connections peer).got ++ bytesTo } ∧
      ∀ c, c ≠ id → c ≠ peer → t.connections c = s.connections c := by
  subst ht
  refine ⟨?_, ?_, ?_⟩
  · simp [take, write, setConnection, Function.update_of_ne hne]
  · simp [take, write, setConnection, Function.update_of_ne hne.symm]
  · intro c hcid hcpeer
    simp [take, write, setConnection, Function.update_of_ne hcid,
      Function.update_of_ne hcpeer]

theorem talk_pipe {token : Token} {peer : ℕ} {toPeer fromPeer : Copy}
    {self other : Connection}
    (hto : Connection.Forwarded self other toPeer)
    (hfrom : Connection.Forwarded other self fromPeer) :
    (pipe token peer toPeer fromPeer).Talk self other := by
  unfold pipe
  split
  · exact ⟨hto.delivered, hfrom.delivered⟩
  · exact ⟨hto, hfrom⟩

theorem streams_poll {id : ℕ} {stepTo stepFrom : CopyStep} (hs : s.Registry)
    (hstreams : s.Streams)
    (hnext : next s (.poll id stepTo stepFrom) = some t) : t.Streams := by
  simp only [next] at hnext
  split at hnext
  next token peer toPeer fromPeer hid =>
    rcases Option.bind_eq_some_iff.mp hnext with
      ⟨⟨toPeer', readTo, bytesTo⟩, hto, hrest⟩
    rcases Option.map_eq_some_iff.mp hrest with
      ⟨⟨fromPeer', readFrom, bytesFrom⟩, hfrom, ht⟩
    have hpeer : (s.handlers id).peer? = some peer := by
      rw [hid]
      rfl
    have hne : id ≠ peer := by
      rintro rfl
      exact hs.not_piped_self (Or.inl hpeer)
    have htalk := hstreams.talk id peer hpeer
    rw [hid] at htalk
    rcases connections_poll hne ht.symm with ⟨hself, hother, hrest⟩
    have hhandlers : t.handlers = Function.update s.handlers id
        (pipe token peer toPeer' fromPeer') := by
      rw [← ht]
      rfl
    have hwrote : ∀ c, (t.connections c).wrote = (s.connections c).wrote := by
      intro c
      by_cases hcid : c = id
      · rw [hcid, hself]
      · by_cases hcpeer : c = peer
        · rw [hcpeer, hother]
        · rw [hrest c hcid hcpeer]
    apply @Streams.pair s t id peer (pipe token peer toPeer' fromPeer') hs
      hstreams hpeer
    · exact (peer?_pipe token peer toPeer' fromPeer').1
    · rw [hid]
      exact (peer?_pipe token peer toPeer' fromPeer').2
    · exact hhandlers
    · exact hrest
    · exact hwrote
    · intro c
      rw [hwrote]
      by_cases hcid : c = id
      · rw [hcid, hself]
        exact Connection.taken_le_of_poll hto (hstreams.taken id)
      · by_cases hcpeer : c = peer
        · rw [hcpeer, hother]
          exact Connection.taken_le_of_poll hfrom (hstreams.taken peer)
        · rw [hrest c hcid hcpeer]
          exact hstreams.taken c
    · apply talk_pipe
      · exact htalk.1.poll hto (by rw [hself]) (by rw [hself]) (by rw [hother])
      · exact htalk.2.poll hfrom (by rw [hother]) (by rw [hother])
          (by rw [hself])
  next => contradiction

/-- An unpaired task moves and the connections stay as they are. -/
theorem streams_of_unpaired {id : ℕ} {old : Handler} (new : Handler)
    (hstreams : s.Streams) (hid : s.handlers id = old) (hold : old.peer? = none)
    (hnew : new.peer? = none) (htoken : new.token? = old.token?)
    (hconnections : t.connections = s.connections)
    (hhandlers : t.handlers = Function.update s.handlers id new) :
    t.Streams := by
  apply hstreams.frame hconnections
  intro c
  rw [hhandlers]
  by_cases hcid : c = id
  · subst c
    rw [Function.update_self, hid]
    exact Or.inr ⟨hold, hnew, htoken⟩
  · rw [Function.update_of_ne hcid]
    exact Or.inl rfl

theorem streams_readToken {id : ℕ} (hs : s.Registry) (hstreams : s.Streams)
    (hid : s.handlers id = .reading)
    (hlength : tokenLength ≤ (s.connections id).wrote.length) :
    ((s.take id tokenLength).setHandler id
      (.lookup ((s.connections id).wrote.take tokenLength))).Streams := by
  have hpeer : (s.handlers id).peer? = none := by
    rw [hid]
    rfl
  have hfree : ∀ d, ¬ s.Piped id d := by
    apply not_piped hs hpeer
    simp [hid]
  have hquiet := hstreams.quiet id hfree
  have htaken : (s.connections id).taken = 0 := by
    rw [hquiet.2, hid]
    rfl
  have hpeers : ∀ c, (((s.take id tokenLength).setHandler id
      (.lookup ((s.connections id).wrote.take tokenLength))).handlers c).peer? =
        (s.handlers c).peer? := by
    intro c
    simp only [setHandler_handlers, take_handlers]
    by_cases hcid : c = id
    · subst c
      rw [Function.update_self, hpeer]
      rfl
    · rw [Function.update_of_ne hcid]
  have hsame : ∀ c, c ≠ id → ((s.take id tokenLength).setHandler id
      (.lookup ((s.connections id).wrote.take tokenLength))).connections c =
        s.connections c := by
    intro c hcid
    simp [take, setConnection, Function.update_of_ne hcid]
  have hself : ((s.take id tokenLength).setHandler id
      (.lookup ((s.connections id).wrote.take tokenLength))).connections id =
        { s.connections id with taken := tokenLength } := by
    simp [take, setConnection, htaken]
  constructor
  · intro c
    by_cases hcid : c = id
    · rw [hcid, hself]
      exact hlength
    · rw [hsame c hcid]
      exact hstreams.taken c
  · intro c token hc
    simp only [setHandler_handlers, take_handlers] at hc
    by_cases hcid : c = id
    · subst c
      rw [Function.update_self] at hc
      cases hc
      rw [hself]
      exact ⟨hlength, rfl⟩
    · rw [Function.update_of_ne hcid] at hc
      rw [hsame c hcid]
      exact hstreams.token c token hc
  · intro c hc
    have hold : ∀ d, ¬ s.Piped c d := by
      intro d hd
      apply hc d
      unfold Piped at hd ⊢
      rw [hpeers, hpeers]
      exact hd
    by_cases hcid : c = id
    · subst c
      rw [hself]
      simp only [setHandler_handlers, Function.update_self]
      exact ⟨hquiet.1, rfl⟩
    · rw [hsame c hcid]
      simp only [setHandler_handlers, take_handlers, Function.update_of_ne hcid]
      exact hstreams.quiet c hold
  · intro h p hp
    rw [hpeers] at hp
    have hhid : h ≠ id := by
      rintro rfl
      rw [hpeer] at hp
      contradiction
    have hpid : p ≠ id := by
      rintro rfl
      exact hfree h (Or.inr hp)
    rw [hsame h hhid, hsame p hpid]
    simp only [setHandler_handlers, take_handlers, Function.update_of_ne hhid]
    exact hstreams.talk h p hp

theorem streams_takePeer {id peer : ℕ} {token : Token} (hs : s.Registry)
    (hstreams : s.Streams) (hid : s.handlers id = .waiting token (some peer)) :
    (s.setHandler id (.signalFirst token peer)).Streams := by
  have hguest : (s.handlers id).guest? = some peer := by
    rw [hid]
    rfl
  rcases hs.guest id peer hguest with ⟨other, hhanded⟩
  have hne : peer ≠ id := by
    rintro rfl
    rw [hid] at hhanded
    contradiction
  have hfree : ∀ d, ¬ s.Piped id d := by
    apply not_piped hs
    · rw [hid]
      rfl
    · simp [hid]
  have hfree' : ∀ d, ¬ s.Piped peer d := by
    intro d hd
    rcases hd with hd | hd
    · rw [hhanded] at hd
      contradiction
    · rcases hs.handed hd with ⟨token', hhanded'⟩
      rw [hhanded] at hhanded'
      cases hhanded'
      exact hfree peer (Or.inl hd)
  have hquiet := hstreams.quiet id hfree
  have hquiet' := hstreams.quiet peer hfree'
  rw [hid] at hquiet
  rw [hhanded] at hquiet'
  constructor
  · exact hstreams.taken
  · intro c token' hc
    apply hstreams.token c token'
    rw [← hc, setHandler_handlers]
    by_cases hcid : c = id
    · subst c
      rw [Function.update_self, hid]
      rfl
    · rw [Function.update_of_ne hcid]
  · intro c hc
    have hcid : c ≠ id := by
      rintro rfl
      apply hc peer
      left
      rw [setHandler_handlers, Function.update_self]
      rfl
    have hold : ∀ d, ¬ s.Piped c d := by
      intro d hd
      apply hc d
      unfold Piped at hd ⊢
      rw [setHandler_handlers, Function.update_of_ne hcid]
      rcases hd with hd | hd
      · exact Or.inl hd
      · have hdid : d ≠ id := by
          rintro rfl
          exact hfree c (Or.inl hd)
        rw [Function.update_of_ne hdid]
        exact Or.inr hd
    rw [setHandler_handlers, Function.update_of_ne hcid]
    exact hstreams.quiet c hold
  · intro h p hp
    rw [setHandler_handlers] at hp ⊢
    by_cases hhid : h = id
    · subst h
      rw [Function.update_self] at hp ⊢
      cases hp
      exact ⟨hquiet.1, hquiet'.1, hquiet.2, hquiet'.2⟩
    · rw [Function.update_of_ne hhid] at hp ⊢
      exact hstreams.talk h p hp

theorem streams_signal {id : ℕ} (hs : s.Registry) (hstreams : s.Streams)
    (hnext : next s (.signal id) = some t) : t.Streams := by
  simp only [next] at hnext
  split at hnext
  next token peer hid =>
    cases hnext
    have hpeer : (s.handlers id).peer? = some peer := by
      rw [hid]
      rfl
    have htalk := hstreams.talk id peer hpeer
    rw [hid] at htalk
    have hne : peer ≠ id := by
      rintro rfl
      exact hs.not_piped_self (Or.inl hpeer)
    apply @Streams.pair s _ id peer (.signalPeer token peer) hs hstreams hpeer
    · rfl
    · rw [hid]
      rfl
    · rfl
    · intro c hcid _
      simp [write, setConnection, Function.update_of_ne hcid]
    · intro c
      by_cases hcid : c = id
      · subst c
        simp [write, setConnection]
      · simp [write, setConnection, Function.update_of_ne hcid]
    · intro c
      have hold := hstreams.taken c
      by_cases hcid : c = id
      · subst c
        simpa [write, setConnection] using hold
      · simpa [write, setConnection, Function.update_of_ne hcid] using hold
    · simp only [setHandler_connections, write, setConnection,
        Function.update_self, Function.update_of_ne hne]
      rcases htalk with ⟨hgot, hgot', htaken, htaken'⟩
      refine ⟨?_, hgot', htaken, htaken'⟩
      rw [hgot]
      rfl
  next token peer hid =>
    cases hnext
    have hpeer : (s.handlers id).peer? = some peer := by
      rw [hid]
      rfl
    have htalk := hstreams.talk id peer hpeer
    rw [hid] at htalk
    have hne : id ≠ peer := by
      rintro rfl
      exact hs.not_piped_self (Or.inl hpeer)
    rcases htalk with ⟨hgot, hgot', htaken, htaken'⟩
    apply @Streams.pair s _ id peer (.piping token peer .start .start) hs
      hstreams hpeer
    · rfl
    · rw [hid]
      rfl
    · rfl
    · intro c _ hcpeer
      simp [write, setConnection, Function.update_of_ne hcpeer]
    · intro c
      by_cases hcpeer : c = peer
      · subst c
        simp [write, setConnection]
      · simp [write, setConnection, Function.update_of_ne hcpeer]
    · intro c
      have hold := hstreams.taken c
      by_cases hcpeer : c = peer
      · subst c
        simpa [write, setConnection] using hold
      · simpa [write, setConnection, Function.update_of_ne hcpeer] using hold
    · simp only [setHandler_connections, write, setConnection,
        Function.update_self, Function.update_of_ne hne]
      refine ⟨⟨htaken.ge, [], ?_, ?_⟩, ⟨htaken'.ge, [], hgot, ?_⟩⟩
      · rw [hgot']
        rfl
      · rw [htaken]
        simp [Copy.start]
      · simp only [htaken']
        simp [Copy.start]
  next => contradiction

theorem streams_signalFails {id : ℕ} (hs : s.Registry) (hstreams : s.Streams)
    (hnext : next s (.signalFails id) = some t) : t.Streams := by
  have hreturned : ∀ token peer, (s.handlers id).peer? = some peer →
      (s.handlers id).token? = some token →
        (s.setHandler id (.returned token peer)).Streams := by
    intro token peer hpeer htoken
    have htalk := (hstreams.talk id peer hpeer).delivered hpeer
    apply @Streams.pair s _ id peer (.returned token peer) hs hstreams hpeer
    · rfl
    · rw [htoken]
      rfl
    · rfl
    · exact fun _ _ _ => rfl
    · exact fun _ => rfl
    · exact hstreams.taken
    · exact htalk
  simp only [next] at hnext
  split at hnext
  next token peer hid =>
    cases hnext
    apply hreturned
    · rw [hid]
      rfl
    · rw [hid]
      rfl
  next token peer hid =>
    cases hnext
    apply hreturned
    · rw [hid]
      rfl
    · rw [hid]
      rfl
  next => contradiction

theorem streams_hand {id first : ℕ} {token : Token} (hstreams : s.Streams)
    (hid : s.handlers id = .sending token first) :
    (s.hand id token first).Streams := by
  unfold hand
  split
  next firstToken hwaiting =>
    have hne : first ≠ id := by
      rintro rfl
      rw [hid] at hwaiting
      contradiction
    apply hstreams.frame
    · rfl
    · intro c
      simp only [setHandler_handlers]
      by_cases hcid : c = id
      · subst c
        rw [Function.update_self, hid]
        exact Or.inr ⟨rfl, rfl, rfl⟩
      · rw [Function.update_of_ne hcid]
        by_cases hcfirst : c = first
        · subst c
          rw [Function.update_self, hwaiting]
          exact Or.inr ⟨rfl, rfl, rfl⟩
        · rw [Function.update_of_ne hcfirst]
          exact Or.inl rfl
  next =>
    exact streams_of_unpaired (.refused token first) hstreams hid rfl rfl rfl rfl
      rfl

theorem streams_next {event : RelayEvent} (hs : s.Registry)
    (hstreams : s.Streams) (hnext : next s event = some t) : t.Streams := by
  cases event with
  | clientWrites id bytes =>
      simp only [next] at hnext
      split at hnext
      next => contradiction
      next =>
        cases hnext
        apply hstreams.grow
        · rfl
        · intro c
          by_cases hcid : c = id
          · subst c
            exact ⟨bytes, by simp [setConnection]⟩
          · exact ⟨[], by simp [setConnection, Function.update_of_ne hcid]⟩
        · intro c
          by_cases hcid : c = id
          · subst c
            simp [setConnection]
          · simp [setConnection, Function.update_of_ne hcid]
        · intro c
          by_cases hcid : c = id
          · subst c
            simp [setConnection]
          · simp [setConnection, Function.update_of_ne hcid]
  | clientCloses id =>
      cases hnext
      apply hstreams.grow
      · rfl
      · intro c
        by_cases hcid : c = id
        · subst c
          exact ⟨[], by simp [setConnection]⟩
        · exact ⟨[], by simp [setConnection, Function.update_of_ne hcid]⟩
      · intro c
        by_cases hcid : c = id
        · subst c
          simp [setConnection]
        · simp [setConnection, Function.update_of_ne hcid]
      · intro c
        by_cases hcid : c = id
        · subst c
          simp [setConnection]
        · simp [setConnection, Function.update_of_ne hcid]
  | readToken id =>
      simp only [next] at hnext
      split at hnext
      next hid =>
        split at hnext
        next hlength =>
          cases hnext
          exact streams_readToken hs hstreams hid hlength
        next => contradiction
      next => contradiction
  | send id =>
      simp only [next] at hnext
      split at hnext
      next token first hid =>
        cases hnext
        exact streams_hand hstreams hid
      next => contradiction
  | takePeer id =>
      simp only [next] at hnext
      split at hnext
      next token peer hid =>
        cases hnext
        exact streams_takePeer hs hstreams hid
      next => contradiction
  | signal id => exact streams_signal hs hstreams hnext
  | signalFails id => exact streams_signalFails hs hstreams hnext
  | poll id stepTo stepFrom => exact streams_poll hs hstreams hnext
  | accept id =>
      simp only [next] at hnext
      split at hnext
      next hid =>
        cases hnext
        exact streams_of_unpaired .reading hstreams hid rfl rfl rfl rfl rfl
      next => contradiction
  | readFails id =>
      simp only [next] at hnext
      split at hnext
      next hid =>
        cases hnext
        exact streams_of_unpaired .unread hstreams hid rfl rfl rfl rfl rfl
      next => contradiction
  | lookup id =>
      simp only [next] at hnext
      split at hnext
      next token hid =>
        split at hnext
        next first hfirst =>
          cases hnext
          exact streams_of_unpaired (.sending token first) hstreams hid rfl rfl rfl rfl
            rfl
        next =>
          cases hnext
          exact streams_of_unpaired (.register token) hstreams hid rfl rfl rfl rfl
            rfl
      next => contradiction
  | register id =>
      simp only [next] at hnext
      split at hnext
      next token hid =>
        cases hnext
        exact streams_of_unpaired (.waiting token none) hstreams hid rfl rfl rfl rfl
          rfl
      next => contradiction
  | timesOut id =>
      simp only [next] at hnext
      split at hnext
      next token sent hid =>
        cases hnext
        exact streams_of_unpaired (.cleanup token) hstreams hid rfl rfl rfl rfl
          rfl
      next => contradiction
  | senderDropped id =>
      simp only [next] at hnext
      split at hnext
      next token hid =>
        split at hnext
        next =>
          cases hnext
          exact streams_of_unpaired (.cleanup token) hstreams hid rfl rfl rfl rfl
            rfl
        next => contradiction
      next => contradiction
  | cleanup id =>
      simp only [next] at hnext
      split at hnext
      next token hid =>
        cases hnext
        exact streams_of_unpaired (.expired token) hstreams hid rfl rfl rfl rfl
          rfl
      next => contradiction

theorem streams_of_starts (hstart : Starts s) : s.Streams := by
  constructor
  · intro c
    rw [hstart.connections]
    exact Nat.le_refl 0
  · intro c token hc
    rw [hstart.handlers] at hc
    contradiction
  · intro c _
    rw [hstart.connections, hstart.handlers]
    exact ⟨rfl, rfl⟩
  · intro h p hp
    rw [hstart.handlers] at hp
    contradiction

theorem streams_of_reachable (hreach : machine.Reachable s) :
    s.Registry ∧ s.Streams := by
  apply hreach.invariant
  · exact fun _ hstart => ⟨registry_of_starts hstart, streams_of_starts hstart⟩
  · intro u event v hu hnext
    exact ⟨registry_next hu.1 hnext, streams_next hu.1 hu.2 hnext⟩

theorem delivered_of_piped (hstreams : s.Streams) {c d : ℕ}
    (hpiped : s.Piped c d) :
    Connection.Delivered (s.connections d) (s.connections c) := by
  rcases hpiped with hpeer | hpeer
  · exact ((hstreams.talk c d hpeer).delivered hpeer).2
  · exact ((hstreams.talk d c hpeer).delivered hpeer).1

/-- A pair has one token, and a client reads what its partner wrote after it. -/
structure PairedSafely (s : Relay) : Prop where
  symmetric : ∀ a b, s.Piped a b → s.Piped b a
  unique : ∀ a b c, s.Piped a b → s.Piped a c → b = c
  distinct : ∀ a b, s.Piped a b → a ≠ b
  tokens : ∀ a b, s.Piped a b →
    tokenLength ≤ (s.connections a).wrote.length ∧
      tokenLength ≤ (s.connections b).wrote.length ∧
      (s.connections a).wrote.take tokenLength =
        (s.connections b).wrote.take tokenLength
  alone : ∀ a, (∀ b, ¬ s.Piped a b) → (s.connections a).got = []
  transparent : ∀ a b, s.Piped a b →
    Connection.Delivered (s.connections b) (s.connections a)

end Relay

theorem relay_pairs_safely :
    ∀ s, Relay.machine.Reachable s → s.PairedSafely := by
  intro s hreach
  rcases Relay.streams_of_reachable hreach with ⟨hs, hstreams⟩
  constructor
  · exact fun a b hpiped => hpiped.symm
  · exact fun a b c hb hc => hs.piped_unique hb hc
  · rintro a b hpiped rfl
    exact hs.not_piped_self hpiped
  · intro a b hpiped
    rcases hs.token?_of_piped hpiped with ⟨token, ha, hb⟩
    have hleft := hstreams.token a token ha
    have hright := hstreams.token b token hb
    exact ⟨hleft.1, hright.1, hleft.2.symm.trans hright.2⟩
  · exact fun a hfree => (hstreams.quiet a hfree).1
  · exact fun a b hpiped => Relay.delivered_of_piped hstreams hpiped

def sampleSession : Option Relay :=
  Relay.machine.runFrom Relay.fresh
    (arrives 0 [1, 2] ++ arrives 1 [3] ++ pairUp 0 1 ++
      [.poll 0 (.moves 2 2) (.moves 1 1)])

theorem relay_pairs_safely_sample :
    ∃ s, sampleSession = some s ∧ s.Piped 0 1 ∧
      (s.connections 0).got = [1, 3] ∧ (s.connections 1).got = [1, 1, 2] ∧
      s.PairedSafely := by
  have hrun : sampleSession.map (fun s =>
      ((s.handlers 0).peer?, (s.connections 0).got, (s.connections 1).got)) =
        some (some 1, [1, 3], [1, 1, 2]) := by
    decide +kernel
  rcases Option.map_eq_some_iff.mp hrun with ⟨s, hs, hstate⟩
  simp only [Prod.mk.injEq] at hstate
  rcases hstate with ⟨hpeer, hgot, hgot'⟩
  have hreach := Machine.Reachable.of_runFrom Relay.starts_fresh hs
  exact ⟨s, hs, Or.inl hpeer, hgot, hgot', relay_pairs_safely s hreach⟩

end P2pShare
