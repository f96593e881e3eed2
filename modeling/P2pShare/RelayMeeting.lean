import P2pShare.RelayPairing

/-!
# Two connections meet at the relay

Looking a token up and registering it are two acquisitions of the lock.  A
condition on the order of the steps is stated under which two connections that
alone present a token are paired with each other.
-/

namespace P2pShare

open ByteStream TransitionMachine

/-- The connection that presented the token no longer waits for a partner. -/
def Handler.finished : Handler → Bool
  | .unread | .handed _ _ | .refused _ _ | .expired _ | .returned _ _ => true
  | _ => false

/-- The task has its token, and has sent its stream or registered. -/
def Handler.decided (handler : Handler) : Bool :=
  match handler with
  | .absent | .reading | .unread | .lookup _ | .sending _ _ | .register _ => false
  | _ => true

/-- What a step of another task can change. -/
def RelayEvent.id : RelayEvent → ℕ
  | .accept id | .clientWrites id _ | .clientCloses id | .readToken id
  | .readFails id | .lookup id | .send id | .register id | .takePeer id
  | .timesOut id | .senderDropped id | .cleanup id | .signal id
  | .signalFails id | .poll id _ _ => id

/-- The event ends the await at which a task in this state is. -/
def RelayEvent.Ends : RelayEvent → Handler → Prop
  | .accept _, .absent => True
  | .readToken _, .reading | .readFails _, .reading => True
  | .lookup _, .lookup _ => True
  | .send _, .sending _ _ => True
  | .register _, .register _ => True
  | .takePeer _, .waiting _ (some _) => True
  | .timesOut _, .waiting _ _ => True
  | .senderDropped _, .waiting _ none => True
  | .cleanup _, .cleanup _ => True
  | .signal _, .signalFirst _ _ | .signal _, .signalPeer _ _ => True
  | .signalFails _, .signalFirst _ _ | .signalFails _, .signalPeer _ _ => True
  | .poll _ _ _, .piping _ _ _ _ => True
  | _, _ => False

namespace Relay

variable {s t : Relay}

/-- No connection that presented the token waits for a partner. -/
def Unclaimed (s : Relay) (token : Token) : Prop :=
  ∀ c, (s.handlers c).token? = some token → (s.handlers c).finished = true

/-- Two connections present the token, and neither reaches its timeout before
the token of the other has been read. -/
def OnlyTwo (token : Token) (a b : ℕ) (s : Relay) : RelayEvent → Prop
  | .readToken id =>
      (s.connections id).wrote.take tokenLength = token ↔ id = a ∨ id = b
  | .timesOut id =>
      (id = a → (s.handlers b).token? = some token) ∧
        (id = b → (s.handlers a).token? = some token)
  | _ => True

/-- No task looks the token up while another one is about to register it, and
none times out once a task that has read the token looks it up, registers it or
has sent its stream. -/
def TakesTurns (token : Token) (s : Relay) : RelayEvent → Prop
  | .lookup id => s.handlers id = .lookup token →
      ∀ other, s.handlers other ≠ .register token
  | .timesOut id => ∀ sent, s.handlers id = .waiting token sent →
      sent = none ∧ ∀ other, s.handlers other ≠ .lookup token ∧
        s.handlers other ≠ .register token ∧
        ∀ first, s.handlers other ≠ .sending token first
  | _ => True

/-- The stream of one of the two connections has come to the other's task. -/
def Matched (s : Relay) (a b : ℕ) : Prop :=
  (s.handlers a).guest? = some b ∨ (s.handlers b).guest? = some a

/-- How far the two connections are; `a` is the one that is ahead. -/
inductive Stage (token : Token) (a b : ℕ) (s : Relay) : Prop
  | before (ha : (s.handlers a).token? = none)
      (hb : (s.handlers b).token? = none) (hmap : s.waitMap token = none)
  | looking (ha : s.handlers a = .lookup token)
      (hb : (s.handlers b).token? = none ∨ s.handlers b = .lookup token)
      (hmap : s.waitMap token = none)
  | registering (ha : s.handlers a = .register token)
      (hb : (s.handlers b).token? = none ∨ s.handlers b = .lookup token)
      (hmap : s.waitMap token = none)
  | waiting (ha : s.handlers a = .waiting token none)
      (hb : (s.handlers b).token? = none ∨ s.handlers b = .lookup token)
      (hmap : s.waitMap token = some a)
  | sending (ha : s.handlers a = .waiting token none)
      (hb : s.handlers b = .sending token a) (hmap : s.waitMap token = none)
  | matched (ha : (s.handlers a).guest? = some b)
      (htoken : (s.handlers a).token? = some token)

/-- The state of the two connections, and that no other one has the token. -/
structure Meeting (token : Token) (a b : ℕ) (s : Relay) : Prop where
  registry : s.Registry
  others : ∀ c, c ≠ a → c ≠ b → (s.handlers c).token? = some token →
    (s.handlers c).finished = true
  held : a ∉ s.dropped ∧ b ∉ s.dropped
  stage : Stage token a b s ∨ Stage token b a s

/-! ## What a step leaves as it is -/

/-- What the step of a task can change outside its own state. -/
structure Acts (id : ℕ) (s t : Relay) : Prop where
  handlers : ∀ c, c ≠ id → t.handlers c = s.handlers c ∨
    ∃ token firstToken, s.handlers id = .sending token c ∧
      s.handlers c = .waiting firstToken none ∧
      t.handlers c = .waiting firstToken (some id)
  waitMap : ∀ token, t.waitMap token = s.waitMap token ∨
    s.handlers id = .lookup token ∨ s.handlers id = .register token ∨
      s.handlers id = .cleanup token
  dropped : ∀ c ∈ t.dropped, c ∈ s.dropped ∨ ∃ token,
    s.waitMap token = some c ∧
      (s.handlers id = .register token ∨ s.handlers id = .cleanup token)

theorem acts_of_setHandler {id : ℕ} (u : Relay) (handler : Handler)
    (hhandlers : u.handlers = s.handlers)
    (hmap : ∀ token, u.waitMap token = s.waitMap token ∨
      s.handlers id = .lookup token ∨ s.handlers id = .register token ∨
        s.handlers id = .cleanup token)
    (hdropped : ∀ c ∈ u.dropped, c ∈ s.dropped ∨ ∃ token,
      s.waitMap token = some c ∧
        (s.handlers id = .register token ∨ s.handlers id = .cleanup token)) :
    Acts id s (u.setHandler id handler) := by
  constructor
  · intro c hc
    rw [setHandler_handlers, Function.update_of_ne hc, hhandlers]
    exact Or.inl rfl
  · exact hmap
  · exact hdropped

theorem acts_of_move {id : ℕ} (u : Relay) (handler : Handler)
    (hhandlers : u.handlers = s.handlers) (hmap : u.waitMap = s.waitMap)
    (hdropped : u.dropped = s.dropped) :
    Acts id s (u.setHandler id handler) := by
  apply acts_of_setHandler u handler hhandlers
  · intro token
    rw [hmap]
    exact Or.inl rfl
  · intro c hc
    rw [hdropped] at hc
    exact Or.inl hc

theorem waitMap_setEntry {token other : Token} {entry : Option ℕ}
    (hne : other ≠ token) :
    (s.setEntry token entry).waitMap other = s.waitMap other := by
  unfold setEntry
  exact Function.update_of_ne hne entry s.waitMap

theorem mem_dropped_evict {token : Token} {c : ℕ}
    (hc : c ∈ (s.evict token).dropped) :
    c ∈ s.dropped ∨ s.waitMap token = some c := by
  rcases List.mem_append.mp hc with hnew | hold
  · exact Or.inr (Option.mem_toList.mp hnew)
  · exact Or.inl hold

theorem acts_of_hand {id first : ℕ} {token : Token}
    (hid : s.handlers id = .sending token first) :
    Acts id s (s.hand id token first) := by
  unfold hand
  split
  next firstToken hwaiting =>
    constructor
    · intro c hc
      by_cases hfirst : c = first
      · subst c
        refine Or.inr ⟨token, firstToken, hid, hwaiting, ?_⟩
        rw [setHandler_handlers, Function.update_of_ne hc, setHandler_handlers,
          Function.update_self]
      · rw [setHandler_handlers, Function.update_of_ne hc, setHandler_handlers,
          Function.update_of_ne hfirst]
        exact Or.inl rfl
    · exact fun _ => Or.inl rfl
    · exact fun _ hc => Or.inl hc
  next => exact acts_of_move s (.refused token first) rfl rfl rfl

theorem acts_of_next {event : RelayEvent} (hnext : next s event = some t) :
    Acts event.id s t := by
  cases event with
  | clientWrites id bytes =>
      simp only [next] at hnext
      split at hnext
      next => contradiction
      next =>
        cases hnext
        exact ⟨fun _ _ => Or.inl rfl, fun _ => Or.inl rfl, fun _ h => Or.inl h⟩
  | clientCloses id =>
      cases hnext
      exact ⟨fun _ _ => Or.inl rfl, fun _ => Or.inl rfl, fun _ h => Or.inl h⟩
  | accept id =>
      simp only [next] at hnext
      split at hnext
      next =>
        cases hnext
        exact acts_of_move s .reading rfl rfl rfl
      next => contradiction
  | readToken id =>
      simp only [next] at hnext
      split at hnext
      next =>
        split at hnext
        next =>
          cases hnext
          exact acts_of_move (s.take id tokenLength) (.lookup _) rfl rfl rfl
        next => contradiction
      next => contradiction
  | readFails id =>
      simp only [next] at hnext
      split at hnext
      next =>
        cases hnext
        exact acts_of_move s .unread rfl rfl rfl
      next => contradiction
  | lookup id =>
      simp only [next] at hnext
      split at hnext
      next token hid =>
        split at hnext
        next first hfirst =>
          cases hnext
          apply @acts_of_setHandler s id (s.setEntry token none) _ rfl
          · intro other
            by_cases hother : other = token
            · subst other
              exact Or.inr (Or.inl hid)
            · exact Or.inl (waitMap_setEntry hother)
          · exact fun _ hc => Or.inl hc
        next =>
          cases hnext
          exact acts_of_move s (.register token) rfl rfl rfl
      next => contradiction
  | send id =>
      simp only [next] at hnext
      split at hnext
      next token first hid =>
        cases hnext
        exact acts_of_hand hid
      next => contradiction
  | register id =>
      simp only [next] at hnext
      split at hnext
      next token hid =>
        cases hnext
        apply @acts_of_setHandler s id
          ((s.evict token).setEntry token (some id)) _ rfl
        · intro other
          by_cases hother : other = token
          · subst other
            exact Or.inr (Or.inr (Or.inl hid))
          · exact Or.inl (waitMap_setEntry hother)
        · intro c hc
          rcases mem_dropped_evict hc with hold | hentry
          · exact Or.inl hold
          · exact Or.inr ⟨token, hentry, Or.inl hid⟩
      next => contradiction
  | takePeer id =>
      simp only [next] at hnext
      split at hnext
      next token peer hid =>
        cases hnext
        exact acts_of_move s (.signalFirst token peer) rfl rfl rfl
      next => contradiction
  | timesOut id =>
      simp only [next] at hnext
      split at hnext
      next token sent hid =>
        cases hnext
        exact acts_of_move s (.cleanup token) rfl rfl rfl
      next => contradiction
  | senderDropped id =>
      simp only [next] at hnext
      split at hnext
      next token hid =>
        split at hnext
        next =>
          cases hnext
          exact acts_of_move s (.cleanup token) rfl rfl rfl
        next => contradiction
      next => contradiction
  | cleanup id =>
      simp only [next] at hnext
      split at hnext
      next token hid =>
        cases hnext
        refine @acts_of_setHandler s id _ (.expired token) ?_ ?_ ?_
        · rfl
        · intro other
          by_cases hother : other = token
          · subst other
            exact Or.inr (Or.inr (Or.inr hid))
          · exact Or.inl (waitMap_setEntry hother)
        · intro c hc
          rcases mem_dropped_evict hc with hold | hentry
          · exact Or.inl hold
          · exact Or.inr ⟨token, hentry, Or.inr hid⟩
      next => contradiction
  | signal id =>
      simp only [next] at hnext
      split at hnext
      next token peer hid =>
        cases hnext
        exact acts_of_move (s.write id [1]) (.signalPeer token peer) rfl rfl rfl
      next token peer hid =>
        cases hnext
        exact acts_of_move (s.write peer [1])
          (.piping token peer .start .start) rfl rfl rfl
      next => contradiction
  | signalFails id =>
      simp only [next] at hnext
      split at hnext
      next token peer hid =>
        cases hnext
        exact acts_of_move s (.returned token peer) rfl rfl rfl
      next token peer hid =>
        cases hnext
        exact acts_of_move s (.returned token peer) rfl rfl rfl
      next => contradiction
  | poll id stepTo stepFrom =>
      simp only [next] at hnext
      split at hnext
      next token peer toPeer fromPeer hid =>
        rcases Option.bind_eq_some_iff.mp hnext with
          ⟨⟨toPeer', readTo, bytesTo⟩, _, hfrom⟩
        rcases Option.map_eq_some_iff.mp hfrom with
          ⟨⟨fromPeer', readFrom, bytesFrom⟩, _, rfl⟩
        exact acts_of_move ((((s.take id readTo).write peer bytesTo).take peer
          readFrom).write id bytesFrom) (pipe token peer toPeer' fromPeer')
          rfl rfl rfl
      next => contradiction

/-- An event that ends no await is one of a client. -/
theorem ends_of_next {event : RelayEvent} (hnext : next s event = some t) :
    (t.handlers = s.handlers ∧ t.waitMap = s.waitMap) ∨
      event.Ends (s.handlers event.id) := by
  cases event with
  | clientWrites id bytes =>
      simp only [next] at hnext
      split at hnext
      next => contradiction
      next =>
        cases hnext
        exact Or.inl ⟨rfl, rfl⟩
  | clientCloses id =>
      cases hnext
      exact Or.inl ⟨rfl, rfl⟩
  | _ =>
      right
      simp only [next] at hnext
      split at hnext
      all_goals
        first
        | contradiction
        | rename_i hid
          simp only [RelayEvent.id, RelayEvent.Ends, hid]

theorem finished_of_next {event : RelayEvent} (hnext : next s event = some t)
    (hfinished : (s.handlers event.id).finished = true) :
    t.handlers = s.handlers ∧ t.waitMap = s.waitMap := by
  rcases ends_of_next hnext with hsame | hends
  · exact hsame
  · cases hstate : s.handlers event.id with
    | unread =>
        rw [hstate] at hends
        cases event <;> exact hends.elim
    | handed token first =>
        rw [hstate] at hends
        cases event <;> exact hends.elim
    | refused token first =>
        rw [hstate] at hends
        cases event <;> exact hends.elim
    | expired token =>
        rw [hstate] at hends
        cases event <;> exact hends.elim
    | returned token peer =>
        rw [hstate] at hends
        cases event <;> exact hends.elim
    | _ =>
        rw [hstate] at hfinished
        contradiction

/-- A task that has read no token reads one, or leaves the map alone. -/
theorem unpresented_of_next {event : RelayEvent} (hnext : next s event = some t)
    (hnone : (s.handlers event.id).token? = none) :
    (t.handlers event.id).token? = none ∨
      event = .readToken event.id ∧ t.handlers event.id =
        .lookup ((s.connections event.id).wrote.take tokenLength) := by
  rcases ends_of_next hnext with ⟨hsame, _⟩ | hends
  · rw [hsame]
    exact Or.inl hnone
  · cases event with
    | accept id =>
        simp only [next] at hnext
        split at hnext
        next hid =>
          cases hnext
          left
          simp [RelayEvent.id, Handler.token?]
        next => contradiction
    | readFails id =>
        simp only [next] at hnext
        split at hnext
        next hid =>
          cases hnext
          left
          simp [RelayEvent.id, Handler.token?]
        next => contradiction
    | readToken id =>
        simp only [next] at hnext
        split at hnext
        next hid =>
          split at hnext
          next =>
            cases hnext
            right
            simp [RelayEvent.id]
          next => contradiction
        next => contradiction
    | _ =>
        cases hstate : s.handlers _ with
        | absent =>
            rw [hstate] at hends
            exact hends.elim
        | reading =>
            rw [hstate] at hends
            exact hends.elim
        | unread =>
            rw [hstate] at hends
            exact hends.elim
        | _ =>
            rw [hstate] at hnone
            contradiction

theorem token?_of_next {event : RelayEvent} {token : Token}
    (hnext : next s event = some t)
    (htoken : (s.handlers event.id).token? = some token) :
    (t.handlers event.id).token? = some token := by
  rcases ends_of_next hnext with ⟨hsame, _⟩ | hends
  · rw [hsame]
    exact htoken
  · cases event with
    | accept id =>
        simp only [next] at hnext
        split at hnext
        next hid =>
          simp only [RelayEvent.id, hid] at htoken
          contradiction
        next => contradiction
    | readToken id =>
        simp only [next] at hnext
        split at hnext
        next hid =>
          simp only [RelayEvent.id, hid] at htoken
          contradiction
        next => contradiction
    | readFails id =>
        simp only [next] at hnext
        split at hnext
        next hid =>
          simp only [RelayEvent.id, hid] at htoken
          contradiction
        next => contradiction
    | lookup id =>
        simp only [next] at hnext
        split at hnext
        next other hid =>
          simp only [RelayEvent.id, hid] at htoken
          split at hnext
          next first hfirst =>
            cases hnext
            simp only [RelayEvent.id, setHandler_handlers, Function.update_self]
            exact htoken
          next =>
            cases hnext
            simp only [RelayEvent.id, setHandler_handlers, Function.update_self]
            exact htoken
        next => contradiction
    | send id =>
        simp only [next] at hnext
        split at hnext
        next other first hid =>
          simp only [RelayEvent.id, hid] at htoken
          cases hnext
          unfold hand
          split
          · simp only [RelayEvent.id, setHandler_handlers, Function.update_self]
            exact htoken
          · simp only [RelayEvent.id, setHandler_handlers, Function.update_self]
            exact htoken
        next => contradiction
    | senderDropped id =>
        simp only [next] at hnext
        split at hnext
        next other hid =>
          simp only [RelayEvent.id, hid] at htoken
          split at hnext
          next =>
            cases hnext
            simp only [RelayEvent.id, setHandler_handlers, Function.update_self]
            exact htoken
          next => contradiction
        next => contradiction
    | signal id =>
        simp only [next] at hnext
        split at hnext
        next other peer hid =>
          simp only [RelayEvent.id, hid] at htoken
          cases hnext
          simp only [RelayEvent.id, setHandler_handlers, Function.update_self]
          exact htoken
        next other peer hid =>
          simp only [RelayEvent.id, hid] at htoken
          cases hnext
          simp only [RelayEvent.id, setHandler_handlers, Function.update_self]
          exact htoken
        next => contradiction
    | signalFails id =>
        simp only [next] at hnext
        split at hnext
        next other peer hid =>
          simp only [RelayEvent.id, hid] at htoken
          cases hnext
          simp only [RelayEvent.id, setHandler_handlers, Function.update_self]
          exact htoken
        next other peer hid =>
          simp only [RelayEvent.id, hid] at htoken
          cases hnext
          simp only [RelayEvent.id, setHandler_handlers, Function.update_self]
          exact htoken
        next => contradiction
    | poll id stepTo stepFrom =>
        simp only [next] at hnext
        split at hnext
        next other peer toPeer fromPeer hid =>
          rcases Option.bind_eq_some_iff.mp hnext with
            ⟨⟨toPeer', readTo, bytesTo⟩, _, hfrom⟩
          rcases Option.map_eq_some_iff.mp hfrom with
            ⟨⟨fromPeer', readFrom, bytesFrom⟩, _, rfl⟩
          simp only [RelayEvent.id, hid] at htoken
          simp only [RelayEvent.id, setHandler_handlers, Function.update_self]
          rw [(peer?_pipe other peer toPeer' fromPeer').2]
          exact htoken
        next => contradiction
    | clientWrites id bytes => exact hends.elim
    | clientCloses id => exact hends.elim
    | _ =>
        simp only [next] at hnext
        split at hnext
        next hid =>
          simp only [RelayEvent.id, hid] at htoken
          cases hnext
          simp only [RelayEvent.id, setHandler_handlers, Function.update_self]
          exact htoken
        next => contradiction

/-- A task with a stream keeps it until it reaches its timeout. -/
theorem guest_of_next {event : RelayEvent} {peer : ℕ}
    (hnext : next s event = some t)
    (hguest : (s.handlers event.id).guest? = some peer)
    (htime : event ≠ .timesOut event.id) :
    (t.handlers event.id).guest? = some peer := by
  rcases ends_of_next hnext with ⟨hsame, _⟩ | hends
  · rw [hsame]
    exact hguest
  · cases event with
    | timesOut id => exact absurd rfl htime
    | takePeer id =>
        simp only [next] at hnext
        split at hnext
        next token other hid =>
          cases hnext
          simp only [RelayEvent.id, hid] at hguest
          simp only [RelayEvent.id, setHandler_handlers, Function.update_self]
          exact hguest
        next => contradiction
    | signal id =>
        simp only [next] at hnext
        split at hnext
        next token other hid =>
          cases hnext
          simp only [RelayEvent.id, hid] at hguest
          simp only [RelayEvent.id, setHandler_handlers, Function.update_self]
          exact hguest
        next token other hid =>
          cases hnext
          simp only [RelayEvent.id, hid] at hguest
          simp only [RelayEvent.id, setHandler_handlers, Function.update_self]
          exact hguest
        next => contradiction
    | signalFails id =>
        simp only [next] at hnext
        split at hnext
        next token other hid =>
          cases hnext
          simp only [RelayEvent.id, hid] at hguest
          simp only [RelayEvent.id, setHandler_handlers, Function.update_self]
          exact hguest
        next token other hid =>
          cases hnext
          simp only [RelayEvent.id, hid] at hguest
          simp only [RelayEvent.id, setHandler_handlers, Function.update_self]
          exact hguest
        next => contradiction
    | poll id stepTo stepFrom =>
        simp only [next] at hnext
        split at hnext
        next token other toPeer fromPeer hid =>
          rcases Option.bind_eq_some_iff.mp hnext with
            ⟨⟨toPeer', readTo, bytesTo⟩, _, hfrom⟩
          rcases Option.map_eq_some_iff.mp hfrom with
            ⟨⟨fromPeer', readFrom, bytesFrom⟩, _, rfl⟩
          simp only [RelayEvent.id, hid] at hguest
          simp only [RelayEvent.id, setHandler_handlers, Function.update_self]
          have hpipe := (peer?_pipe token other toPeer' fromPeer').1
          rw [Handler.peer?_eq_guest? hpipe]
          exact hguest
        next => contradiction
    | _ =>
        cases hstate : s.handlers _ with
        | waiting token sent =>
            rw [hstate] at hends hguest
            cases sent with
            | none => contradiction
            | some other => exact hends.elim
        | signalFirst token other =>
            rw [hstate] at hends
            exact hends.elim
        | signalPeer token other =>
            rw [hstate] at hends
            exact hends.elim
        | piping token other toPeer fromPeer =>
            rw [hstate] at hends
            exact hends.elim
        | returned token other =>
            rw [hstate] at hends
            exact hends.elim
        | _ =>
            rw [hstate] at hguest
            contradiction

/-! ## The two connections meet -/

/-- Whichever of the two waits alone waits under the token. -/
theorem Stage.waiting_token {token other : Token} {a b c : ℕ} (hs : s.Registry)
    (hstage : Stage token a b s) (hc : c = a ∨ c = b)
    (hwaiting : s.handlers c = .waiting other none) : other = token := by
  have hunpresented : (s.handlers c).token? ≠ none := by
    rw [hwaiting]
    exact Option.some_ne_none other
  have hfollower : c = b → (s.handlers b).token? = none ∨
      s.handlers b = .lookup token → other = token := by
    rintro rfl (hnone | hlookup)
    · exact absurd hnone hunpresented
    · rw [hlookup] at hwaiting
      contradiction
  cases hstage with
  | before ha hb hmap =>
      rcases hc with rfl | rfl
      · exact absurd ha hunpresented
      · exact absurd hb hunpresented
  | looking ha hb hmap =>
      rcases hc with rfl | rfl
      · rw [ha] at hwaiting
        contradiction
      · exact hfollower rfl hb
  | registering ha hb hmap =>
      rcases hc with rfl | rfl
      · rw [ha] at hwaiting
        contradiction
      · exact hfollower rfl hb
  | waiting ha hb hmap =>
      rcases hc with rfl | rfl
      · rw [ha] at hwaiting
        cases hwaiting
        rfl
      · exact hfollower rfl hb
  | sending ha hb hmap =>
      rcases hc with rfl | rfl
      · rw [ha] at hwaiting
        cases hwaiting
        rfl
      · rw [hb] at hwaiting
        contradiction
  | matched ha htoken =>
      rcases hc with rfl | rfl
      · rw [hwaiting] at ha
        contradiction
      · rcases hs.guest a c ha with ⟨other', hhanded⟩
        rw [hhanded] at hwaiting
        contradiction

theorem Stage.of_eq {token : Token} {a b : ℕ} (hstage : Stage token a b s)
    (ha : t.handlers a = s.handlers a) (hb : t.handlers b = s.handlers b)
    (hmap : t.waitMap token = s.waitMap token) : Stage token a b t := by
  cases hstage with
  | before h₁ h₂ h₃ =>
      apply Stage.before
      · rw [ha]
        exact h₁
      · rw [hb]
        exact h₂
      · rw [hmap]
        exact h₃
  | looking h₁ h₂ h₃ =>
      apply Stage.looking
      · rw [ha]
        exact h₁
      · rw [hb]
        exact h₂
      · rw [hmap]
        exact h₃
  | registering h₁ h₂ h₃ =>
      apply Stage.registering
      · rw [ha]
        exact h₁
      · rw [hb]
        exact h₂
      · rw [hmap]
        exact h₃
  | waiting h₁ h₂ h₃ =>
      apply Stage.waiting
      · rw [ha]
        exact h₁
      · rw [hb]
        exact h₂
      · rw [hmap]
        exact h₃
  | sending h₁ h₂ h₃ =>
      apply Stage.sending
      · rw [ha]
        exact h₁
      · rw [hb]
        exact h₂
      · rw [hmap]
        exact h₃
  | matched h₁ h₂ =>
      apply Stage.matched
      · rw [ha]
        exact h₁
      · rw [ha]
        exact h₂

section Meeting

variable {token : Token} {a b : ℕ} {event : RelayEvent}

theorem Meeting.symm (hm : Meeting token a b s) : Meeting token b a s where
  registry := hm.registry
  others := fun c hb ha => hm.others c ha hb
  held := hm.held.symm
  stage := hm.stage.symm

/-- Another task that is not finished is busy with another token. -/
theorem Meeting.other_token {c : ℕ} (hm : Meeting token a b s) (ha : c ≠ a)
    (hb : c ≠ b) (hbusy : (s.handlers c).finished = false) :
    (s.handlers c).token? ≠ some token := by
  intro htoken
  rw [hm.others c ha hb htoken] at hbusy
  contradiction

theorem Meeting.waiting_token {other : Token} {c : ℕ}
    (hm : Meeting token a b s) (hc : c = a ∨ c = b)
    (hwaiting : s.handlers c = .waiting other none) : other = token := by
  rcases hm.stage with hstage | hstage
  · exact hstage.waiting_token hm.registry hc hwaiting
  · exact hstage.waiting_token hm.registry hc.symm hwaiting

/-- A step of another task changes nothing the two connections depend on. -/
theorem Meeting.bystander (hm : Meeting token a b s)
    (hnext : next s event = some t) (ha : event.id ≠ a) (hb : event.id ≠ b) :
    t.handlers a = s.handlers a ∧ t.handlers b = s.handlers b ∧
      t.waitMap token = s.waitMap token := by
  have hacts := acts_of_next hnext
  have hkeeps : ∀ c, c = a ∨ c = b → c ≠ event.id →
      t.handlers c = s.handlers c := by
    intro c hc hne
    rcases hacts.handlers c hne with
      hsame | ⟨other, firstToken, hsending, hwaiting, _⟩
    · exact hsame
    · have htoken := hm.waiting_token hc hwaiting
      have htarget : (s.handlers event.id).target? = some c := by
        rw [hsending]
        rfl
      have hsame := (hm.registry.target event.id c htarget).2
      have hbusy : (s.handlers event.id).finished = false := by
        rw [hsending]
        rfl
      apply absurd _ (hm.other_token ha hb hbusy)
      rw [← hsame, hwaiting, htoken]
      rfl
  refine ⟨hkeeps a (Or.inl rfl) ha.symm, hkeeps b (Or.inr rfl) hb.symm, ?_⟩
  rcases hacts.waitMap token with hsame | hstate
  · exact hsame
  · have hbusy : (s.handlers event.id).finished = false ∧
        (s.handlers event.id).token? = some token := by
      rcases hstate with hstate | hstate | hstate
      · rw [hstate]
        exact ⟨rfl, rfl⟩
      · rw [hstate]
        exact ⟨rfl, rfl⟩
      · rw [hstate]
        exact ⟨rfl, rfl⟩
    exact absurd hbusy.2 (hm.other_token ha hb hbusy.1)

/-- The step of the connection that is ahead. -/
theorem Meeting.ahead (hm : Meeting token a b s) (hne : a ≠ b)
    (hstage : Stage token a b s) (honly : OnlyTwo token a b s event)
    (hturns : TakesTurns token s event) (hnext : next s event = some t)
    (hid : event.id = a) : Stage token a b t := by
  have hacts := acts_of_next hnext
  have hkeeps : (∀ other first, s.handlers a ≠ .sending other first) →
      t.handlers b = s.handlers b := by
    intro hnot
    rcases hacts.handlers b (by rw [hid]; exact hne.symm) with
      hsame | ⟨other, _, hsending, _⟩
    · exact hsame
    · rw [hid] at hsending
      exact absurd hsending (hnot other b)
  subst hid
  cases hstage with
  | before ha hb hmap =>
      have hsame : t.waitMap token = s.waitMap token := by
        rcases hacts.waitMap token with hsame | hstate
        · exact hsame
        · rcases hstate with hstate | hstate | hstate
          · rw [hstate] at ha
            contradiction
          · rw [hstate] at ha
            contradiction
          · rw [hstate] at ha
            contradiction
      have hother : t.handlers b = s.handlers b := by
        apply hkeeps
        intro other first hstate
        rw [hstate] at ha
        contradiction
      rcases unpresented_of_next hnext ha with hnone | ⟨hevent, hread⟩
      · exact Stage.before hnone (by rw [hother]; exact hb)
          (hsame.trans hmap)
      · rw [hevent] at honly
        have htoken := honly.mpr (Or.inl rfl)
        rw [htoken] at hread
        exact Stage.looking hread (by rw [hother]; exact Or.inl hb)
          (hsame.trans hmap)
  | looking ha hb hmap =>
      have hother := hkeeps (by simp [ha])
      rcases ends_of_next hnext with ⟨hsame, hsame'⟩ | hends
      · exact (Stage.looking ha hb hmap).of_eq (congrFun hsame _)
          (congrFun hsame b) (congrFun hsame' token)
      · rw [ha] at hends
        cases event with
        | lookup id =>
            simp only [RelayEvent.id] at ha
            simp only [next, ha, hmap] at hnext
            cases hnext
            apply Stage.registering
            · simp [RelayEvent.id]
            · rw [hother]
              exact hb
            · exact hmap
        | _ => exact hends.elim
  | registering ha hb hmap =>
      have hother := hkeeps (by simp [ha])
      rcases ends_of_next hnext with ⟨hsame, hsame'⟩ | hends
      · exact (Stage.registering ha hb hmap).of_eq (congrFun hsame _)
          (congrFun hsame b) (congrFun hsame' token)
      · rw [ha] at hends
        cases event with
        | register id =>
            simp only [RelayEvent.id] at ha
            simp only [next, ha] at hnext
            cases hnext
            apply Stage.waiting
            · simp [RelayEvent.id]
            · rw [hother]
              exact hb
            · simp [setEntry, RelayEvent.id]
        | _ => exact hends.elim
  | waiting ha hb hmap =>
      rcases ends_of_next hnext with ⟨hsame, hsame'⟩ | hends
      · exact (Stage.waiting ha hb hmap).of_eq (congrFun hsame _)
          (congrFun hsame b) (congrFun hsame' token)
      · rw [ha] at hends
        cases event with
        | timesOut id =>
            have hpresented := honly.1 rfl
            have hquiet := (hturns none ha).2 b
            rcases hb with hb | hb
            · rw [hb] at hpresented
              contradiction
            · exact absurd hb hquiet.1
        | senderDropped id =>
            simp only [RelayEvent.id] at ha
            simp only [next, ha] at hnext
            split at hnext
            next hdropped => exact absurd hdropped hm.held.1
            next => contradiction
        | _ => exact hends.elim
  | sending ha hb hmap =>
      rcases ends_of_next hnext with ⟨hsame, hsame'⟩ | hends
      · exact (Stage.sending ha hb hmap).of_eq (congrFun hsame _)
          (congrFun hsame b) (congrFun hsame' token)
      · rw [ha] at hends
        cases event with
        | timesOut id =>
            have hquiet := (hturns none ha).2 b
            exact absurd hb (hquiet.2.2 _)
        | senderDropped id =>
            simp only [RelayEvent.id] at ha
            simp only [next, ha] at hnext
            split at hnext
            next hdropped => exact absurd hdropped hm.held.1
            next => contradiction
        | _ => exact hends.elim
  | matched ha htoken =>
      have htime : event ≠ .timesOut event.id := by
        intro hevent
        cases event with
        | timesOut id =>
            simp only [RelayEvent.id] at ha htoken
            simp only [next] at hnext
            split at hnext
            next other sent hid =>
              rw [hid] at ha htoken
              cases htoken
              have hsent := (hturns sent hid).1
              rw [hsent] at ha
              contradiction
            next => contradiction
        | _ => contradiction
      exact Stage.matched (guest_of_next hnext ha htime)
        (token?_of_next hnext htoken)

/-- The step of the connection that is behind. -/
theorem Meeting.behind (hm : Meeting token a b s) (hne : a ≠ b)
    (hstage : Stage token a b s) (honly : OnlyTwo token a b s event)
    (hturns : TakesTurns token s event) (hnext : next s event = some t)
    (hid : event.id = b) : Stage token a b t ∨ Stage token b a t := by
  have hacts := acts_of_next hnext
  have hkeeps : (∀ other first, s.handlers b ≠ .sending other first) →
      t.handlers a = s.handlers a := by
    intro hnot
    rcases hacts.handlers a (by rw [hid]; exact hne) with
      hsame | ⟨other, _, hsending, _⟩
    · exact hsame
    · rw [hid] at hsending
      exact absurd hsending (hnot other a)
  subst hid
  -- A connection that has not presented the token presents it, or waits on.
  have hread : (s.handlers event.id).token? = none →
      t.handlers a = s.handlers a ∧ t.waitMap token = s.waitMap token ∧
        ((t.handlers event.id).token? = none ∨
          t.handlers event.id = .lookup token) := by
    intro hnone
    refine ⟨?_, ?_, ?_⟩
    · apply hkeeps
      intro other first hstate
      rw [hstate] at hnone
      contradiction
    · rcases hacts.waitMap token with hsame | hstate
      · exact hsame
      · rcases hstate with hstate | hstate | hstate
        · rw [hstate] at hnone
          contradiction
        · rw [hstate] at hnone
          contradiction
        · rw [hstate] at hnone
          contradiction
    · rcases unpresented_of_next hnext hnone with hstill | ⟨hevent, hlookup⟩
      · exact Or.inl hstill
      · rw [hevent] at honly
        rw [honly.mpr (Or.inr rfl)] at hlookup
        exact Or.inr hlookup
  cases hstage with
  | before ha hb hmap =>
      rcases hread hb with ⟨hother, hsame, hnone | hlookup⟩
      · exact Or.inl (Stage.before (by rw [hother]; exact ha) hnone
          (hsame.trans hmap))
      · exact Or.inr (Stage.looking hlookup (by rw [hother]; exact Or.inl ha)
          (hsame.trans hmap))
  | looking ha hb hmap =>
      rcases hb with hb | hb
      · rcases hread hb with ⟨hother, hsame, hnext'⟩
        exact Or.inl (Stage.looking (hother.trans ha) hnext'
          (hsame.trans hmap))
      · have hother := hkeeps (by simp [hb])
        rcases ends_of_next hnext with ⟨hsame, hsame'⟩ | hends
        · exact Or.inl ((Stage.looking ha (Or.inr hb) hmap).of_eq
            (congrFun hsame a) (congrFun hsame _) (congrFun hsame' token))
        · rw [hb] at hends
          cases event with
          | lookup id =>
              simp only [RelayEvent.id] at hb
              simp only [next, hb, hmap] at hnext
              cases hnext
              right
              apply Stage.registering
              · simp [RelayEvent.id]
              · rw [hother]
                exact Or.inr ha
              · exact hmap
          | _ => exact hends.elim
  | registering ha hb hmap =>
      rcases hb with hb | hb
      · rcases hread hb with ⟨hother, hsame, hnext'⟩
        exact Or.inl (Stage.registering (hother.trans ha) hnext'
          (hsame.trans hmap))
      · rcases ends_of_next hnext with ⟨hsame, hsame'⟩ | hends
        · exact Or.inl ((Stage.registering ha (Or.inr hb) hmap).of_eq
            (congrFun hsame a) (congrFun hsame _) (congrFun hsame' token))
        · rw [hb] at hends
          cases event with
          | lookup id => exact absurd ha (hturns hb a)
          | _ => exact hends.elim
  | waiting ha hb hmap =>
      rcases hb with hb | hb
      · rcases hread hb with ⟨hother, hsame, hnext'⟩
        exact Or.inl (Stage.waiting (hother.trans ha) hnext'
          (hsame.trans hmap))
      · have hother := hkeeps (by simp [hb])
        rcases ends_of_next hnext with ⟨hsame, hsame'⟩ | hends
        · exact Or.inl ((Stage.waiting ha (Or.inr hb) hmap).of_eq
            (congrFun hsame a) (congrFun hsame _) (congrFun hsame' token))
        · rw [hb] at hends
          cases event with
          | lookup id =>
              simp only [RelayEvent.id] at hb
              simp only [next, hb, hmap] at hnext
              cases hnext
              left
              apply Stage.sending
              · exact hother.trans ha
              · simp [RelayEvent.id]
              · simp [setEntry]
          | _ => exact hends.elim
  | sending ha hb hmap =>
      rcases ends_of_next hnext with ⟨hsame, hsame'⟩ | hends
      · exact Or.inl ((Stage.sending ha hb hmap).of_eq
          (congrFun hsame a) (congrFun hsame _) (congrFun hsame' token))
      · rw [hb] at hends
        cases event with
        | send id =>
            simp only [RelayEvent.id] at hb hne
            simp only [next, hb] at hnext
            cases hnext
            have hstate : (s.hand id token a).handlers a =
                .waiting token (some id) := by
              simp only [hand, ha, setHandler_handlers,
                Function.update_of_ne hne, Function.update_self]
            left
            apply Stage.matched
            · rw [hstate]
              rfl
            · rw [hstate]
              rfl
        | _ => exact hends.elim
  | matched ha htoken =>
      rcases hm.registry.guest a _ ha with ⟨other, hhanded⟩
      have hfinished : (s.handlers event.id).finished = true := by
        rw [hhanded]
        rfl
      have hsame := (finished_of_next hnext hfinished).1
      refine Or.inl (Stage.matched ?_ ?_)
      · rw [hsame]
        exact ha
      · rw [hsame]
        exact htoken

/-- While one of the two waits alone, the other one is not registering or
cleaning up. -/
theorem Stage.alone {other : Token} {c d : ℕ} (hs : s.Registry)
    (hstage : Stage token a b s) (hc : c = a ∧ d = b ∨ c = b ∧ d = a)
    (hwaiting : s.handlers c = .waiting other none) :
    s.handlers d ≠ .register token ∧ s.handlers d ≠ .cleanup token := by
  have hahead : c = a ∧ d = b := by
    rcases hc with hc | ⟨rfl, rfl⟩
    · exact hc
    · exfalso
      have hfollower : (s.handlers c).token? = none ∨
          s.handlers c = .lookup token → False := by
        rintro (hnone | hlookup)
        · rw [hwaiting] at hnone
          contradiction
        · rw [hlookup] at hwaiting
          contradiction
      cases hstage with
      | before ha hb hmap => exact hfollower (Or.inl hb)
      | looking ha hb hmap => exact hfollower hb
      | registering ha hb hmap => exact hfollower hb
      | waiting ha hb hmap => exact hfollower hb
      | sending ha hb hmap =>
          rw [hb] at hwaiting
          contradiction
      | matched ha htoken =>
          rcases hs.guest d c ha with ⟨other', hhanded⟩
          rw [hhanded] at hwaiting
          contradiction
  rcases hahead with ⟨rfl, rfl⟩
  cases hstage with
  | before ha hb hmap =>
      rw [hwaiting] at ha
      contradiction
  | looking ha hb hmap =>
      rw [ha] at hwaiting
      contradiction
  | registering ha hb hmap =>
      rw [ha] at hwaiting
      contradiction
  | waiting ha hb hmap =>
      rcases hb with hb | hb
      · constructor
        · intro hstate
          rw [hstate] at hb
          contradiction
        · intro hstate
          rw [hstate] at hb
          contradiction
      · simp [hb]
  | sending ha hb hmap => simp [hb]
  | matched ha htoken =>
      rw [hwaiting] at ha
      contradiction

theorem Stage.not_cleanup {other : Token} {c : ℕ} (hs : s.Registry)
    (hstage : Stage token a b s) (hc : c = a ∨ c = b) :
    s.handlers c ≠ .cleanup other := by
  intro hcleanup
  have hfollower : (s.handlers c).token? = none ∨
      s.handlers c = .lookup token → False := by
    rintro (hnone | hlookup)
    · rw [hcleanup] at hnone
      contradiction
    · rw [hlookup] at hcleanup
      contradiction
  cases hstage with
  | before ha hb hmap =>
      rcases hc with rfl | rfl
      · exact hfollower (Or.inl ha)
      · exact hfollower (Or.inl hb)
  | looking ha hb hmap =>
      rcases hc with rfl | rfl
      · exact hfollower (Or.inr ha)
      · exact hfollower hb
  | registering ha hb hmap =>
      rcases hc with rfl | rfl
      · rw [ha] at hcleanup
        contradiction
      · exact hfollower hb
  | waiting ha hb hmap =>
      rcases hc with rfl | rfl
      · rw [ha] at hcleanup
        contradiction
      · exact hfollower hb
  | sending ha hb hmap =>
      rcases hc with rfl | rfl
      · rw [ha] at hcleanup
        contradiction
      · rw [hb] at hcleanup
        contradiction
  | matched ha htoken =>
      rcases hc with rfl | rfl
      · rw [hcleanup] at ha
        contradiction
      · rcases hs.guest a c ha with ⟨other', hhanded⟩
        rw [hhanded] at hcleanup
        contradiction

/-- The sender of neither of the two is dropped. -/
theorem Meeting.held_next (hm : Meeting token a b s)
    (hnext : next s event = some t) {c d : ℕ}
    (hc : c = a ∧ d = b ∨ c = b ∧ d = a) (hheld : c ∉ s.dropped) :
    c ∉ t.dropped := by
  intro hdropped
  rcases (acts_of_next hnext).dropped c hdropped with
    hold | ⟨other, hentry, hstate⟩
  · exact hheld hold
  · have heither : c = a ∨ c = b := by
      rcases hc with hc | hc
      · exact Or.inl hc.1
      · exact Or.inr hc.1
    have hwaiting : s.handlers c = .waiting other none := by
      rcases (hm.registry.entry other c hentry).1 with hwaiting | hcleanup
      · exact hwaiting
      · rcases hm.stage with hstage | hstage
        · exact absurd hcleanup (hstage.not_cleanup hm.registry heither)
        · exact absurd hcleanup (hstage.not_cleanup hm.registry heither.symm)
    have htoken := hm.waiting_token heither hwaiting
    subst htoken
    have hbusy : (s.handlers event.id).finished = false ∧
        (s.handlers event.id).token? = some other := by
      rcases hstate with hstate | hstate
      · rw [hstate]
        exact ⟨rfl, rfl⟩
      · rw [hstate]
        exact ⟨rfl, rfl⟩
    have hself : event.id ≠ c := by
      rintro rfl
      rw [hwaiting] at hstate
      rcases hstate with h | h
      · contradiction
      · contradiction
    have hid : event.id = d := by
      by_contra hne
      rcases hc with ⟨rfl, rfl⟩ | ⟨rfl, rfl⟩
      · exact hm.other_token hself hne hbusy.1 hbusy.2
      · exact hm.other_token hne hself hbusy.1 hbusy.2
    rw [hid] at hstate
    have halone : s.handlers d ≠ .register other ∧
        s.handlers d ≠ .cleanup other := by
      rcases hm.stage with hstage | hstage
      · exact hstage.alone hm.registry hc hwaiting
      · have hswap : c = b ∧ d = a ∨ c = a ∧ d = b := hc.symm
        exact hstage.alone hm.registry hswap hwaiting
    rcases hstate with hstate | hstate
    · exact halone.1 hstate
    · exact halone.2 hstate

theorem Meeting.others_next (hm : Meeting token a b s)
    (honly : OnlyTwo token a b s event) (hnext : next s event = some t) {c : ℕ}
    (ha : c ≠ a) (hb : c ≠ b) (htoken : (t.handlers c).token? = some token) :
    (t.handlers c).finished = true := by
  by_cases hid : c = event.id
  · subst hid
    cases hold : (s.handlers event.id).token? with
    | none =>
        exfalso
        rcases unpresented_of_next hnext hold with hnone | ⟨hevent, hread⟩
        · rw [hnone] at htoken
          contradiction
        · rw [hread] at htoken
          cases htoken
          rw [hevent] at honly
          rcases honly.mp rfl with h | h
          · exact ha h
          · exact hb h
    | some other =>
        have hsame := token?_of_next hnext hold
        rw [htoken] at hsame
        cases hsame
        have hfinished := hm.others event.id ha hb hold
        rw [(finished_of_next hnext hfinished).1]
        exact hfinished
  · rcases (acts_of_next hnext).handlers c hid with
      hsame | ⟨other, firstToken, hsending, hwaiting, hsent⟩
    · rw [hsame] at htoken ⊢
      exact hm.others c ha hb htoken
    · rw [hsent] at htoken
      cases htoken
      have hfinished := hm.others c ha hb (by rw [hwaiting]; rfl)
      rw [hwaiting] at hfinished
      contradiction

theorem Meeting.next (hm : Meeting token a b s) (hne : a ≠ b)
    (honly : OnlyTwo token a b s event) (hturns : TakesTurns token s event)
    (hnext : Relay.next s event = some t) : Meeting token a b t := by
  constructor
  · exact registry_next hm.registry hnext
  · exact fun c ha hb => hm.others_next honly hnext ha hb
  · exact ⟨hm.held_next hnext (Or.inl ⟨rfl, rfl⟩) hm.held.1,
      hm.held_next hnext (Or.inr ⟨rfl, rfl⟩) hm.held.2⟩
  · have hswap : OnlyTwo token b a s event := by
      cases event with
      | readToken id => exact honly.trans or_comm
      | timesOut id => exact ⟨honly.2, honly.1⟩
      | _ => trivial
    by_cases ha : event.id = a
    · rcases hm.stage with hstage | hstage
      · exact Or.inl (hm.ahead hne hstage honly hturns hnext ha)
      · exact (hm.symm.behind hne.symm hstage hswap hturns hnext ha).symm
    · by_cases hb : event.id = b
      · rcases hm.stage with hstage | hstage
        · exact hm.behind hne hstage honly hturns hnext hb
        · exact Or.inr (hm.symm.ahead hne.symm hstage hswap hturns hnext hb)
      · rcases hm.bystander hnext ha hb with ⟨hsame, hsame', hmap⟩
        rcases hm.stage with hstage | hstage
        · exact Or.inl (hstage.of_eq hsame hsame' hmap)
        · exact Or.inr (hstage.of_eq hsame' hsame hmap)

end Meeting

/-- A connection whose sender was dropped has presented its token. -/
theorem registered_of_dropped (hreach : machine.Reachable s) :
    ∀ c ∈ s.dropped, (s.handlers c).token? ≠ none := by
  have hinvariant : s.Registry ∧
      ∀ c ∈ s.dropped, (s.handlers c).token? ≠ none := by
    apply hreach.invariant
    · intro s₀ hstart
      refine ⟨registry_of_starts hstart, ?_⟩
      rw [hstart.dropped]
      intro c hc
      contradiction
    · rintro u event v ⟨hs, hdropped⟩ hnext
      refine ⟨registry_next hs hnext, ?_⟩
      intro c hc
      have hacts := acts_of_next hnext
      have hold : (u.handlers c).token? ≠ none := by
        rcases hacts.dropped c hc with hold | ⟨token, hentry, _⟩
        · exact hdropped c hold
        · rcases (hs.entry token c hentry).1 with hstate | hstate
          · rw [hstate]
            exact Option.some_ne_none token
          · rw [hstate]
            exact Option.some_ne_none token
      by_cases hid : c = event.id
      · subst hid
        rcases Option.ne_none_iff_exists'.mp hold with ⟨token, htoken⟩
        rw [token?_of_next hnext htoken]
        exact Option.some_ne_none token
      · rcases hacts.handlers c hid with
          hsame | ⟨_, firstToken, _, _, hsent⟩
        · rw [hsame]
          exact hold
        · rw [hsent]
          exact Option.some_ne_none firstToken
  exact hinvariant.2

theorem meeting_of_unclaimed {token : Token} {a b : ℕ}
    (hreach : machine.Reachable s) (hunclaimed : s.Unclaimed token)
    (ha : (s.handlers a).token? = none) (hb : (s.handlers b).token? = none) :
    Meeting token a b s := by
  have hs := registry_of_reachable hreach
  constructor
  · exact hs
  · exact fun c _ _ htoken => hunclaimed c htoken
  · exact ⟨fun h => registered_of_dropped hreach a h ha,
      fun h => registered_of_dropped hreach b h hb⟩
  · refine Or.inl (Stage.before ha hb ?_)
    cases hentry : s.waitMap token with
    | none => rfl
    | some owner =>
        exfalso
        rcases (hs.entry token owner hentry).1 with hstate | hstate
        · have hfinished := hunclaimed owner (by rw [hstate]; rfl)
          rw [hstate] at hfinished
          contradiction
        · have hfinished := hunclaimed owner (by rw [hstate]; rfl)
          rw [hstate] at hfinished
          contradiction

theorem Stage.matched_of_decided {token : Token} {a b : ℕ}
    (hstage : Stage token a b s) (hb : (s.handlers b).decided = true) : (s.handlers a).guest? = some b := by
  have hfollower : (s.handlers b).token? = none ∨
      s.handlers b = .lookup token → False := by
    rintro (hnone | hlookup)
    · cases hstate : s.handlers b with
      | absent =>
          rw [hstate] at hb
          contradiction
      | reading =>
          rw [hstate] at hb
          contradiction
      | unread =>
          rw [hstate] at hb
          contradiction
      | _ =>
          rw [hstate] at hnone
          contradiction
    · rw [hlookup] at hb
      contradiction
  cases hstage with
  | before _ hnone _ => exact (hfollower (Or.inl hnone)).elim
  | looking _ h _ => exact (hfollower h).elim
  | registering _ h _ => exact (hfollower h).elim
  | waiting _ h _ => exact (hfollower h).elim
  | sending _ h _ =>
      rw [h] at hb
      contradiction
  | matched h _ => exact h

end Relay

/-- Two connections that alone present a token are paired with each other, if
the tasks of that token take turns at the wait map. -/
theorem two_connections_are_paired :
    ∀ token a b, a ≠ b → ∀ s₀, Relay.machine.Reachable s₀ →
      s₀.Unclaimed token → (s₀.handlers a).token? = none →
      (s₀.handlers b).token? = none → ∀ s,
      (Relay.machine.restrict fun u event =>
        Relay.OnlyTwo token a b u event ∧
          Relay.TakesTurns token u event).Leads s₀ s →
      (s.handlers a).decided = true → (s.handlers b).decided = true →
      s.Matched a b := by
  intro token a b hne s₀ hreach hunclaimed ha hb s hleads hda hdb
  have hmeeting : Relay.Meeting token a b s := by
    apply hleads.preserves
    · exact Relay.meeting_of_unclaimed hreach hunclaimed ha hb
    · intro u event v hu hnext
      rcases Machine.restrict_next_eq_some.mp hnext with
        ⟨hfree, honly, hturns⟩
      exact hu.next hne honly hturns hfree
  rcases hmeeting.stage with hstage | hstage
  · exact Or.inl (hstage.matched_of_decided hdb)
  · exact Or.inr (hstage.matched_of_decided hda)

def takingTurns : List RelayEvent :=
  arrives 0 [] ++ arrives 1 [] ++
    [.lookup 0, .register 0, .lookup 1, .send 1]

theorem takingTurns_meets :
    Relay.machine.Meets (fun u event =>
      Relay.OnlyTwo sampleToken 0 1 u event ∧
        Relay.TakesTurns sampleToken u event) Relay.fresh takingTurns := by
  refine ⟨⟨trivial, trivial⟩, fun s₁ h₁ => ⟨⟨trivial, trivial⟩, fun s₂ h₂ =>
    ⟨⟨?_, trivial⟩, fun s₃ h₃ => ⟨⟨trivial, trivial⟩, fun s₄ h₄ =>
      ⟨⟨trivial, trivial⟩, fun s₅ h₅ => ⟨⟨?_, trivial⟩, fun s₆ h₆ =>
        ⟨⟨trivial, ?_⟩, fun s₇ h₇ => ⟨⟨trivial, trivial⟩, fun s₈ h₈ =>
          ⟨⟨trivial, ?_⟩, fun s₉ h₉ => ⟨⟨trivial, trivial⟩, fun _ _ =>
            trivial⟩⟩⟩⟩⟩⟩⟩⟩⟩⟩
  · cases h₁
    cases h₂
    exact iff_of_true rfl (Or.inl rfl)
  · cases h₁
    cases h₂
    cases h₃
    cases h₄
    cases h₅
    exact iff_of_true rfl (Or.inr rfl)
  · cases h₁
    cases h₂
    cases h₃
    cases h₄
    cases h₅
    cases h₆
    intro _ other
    rcases other with _ | _ | other
    · decide +kernel
    · decide +kernel
    · simp [Relay.setHandler, Relay.fresh, Relay.take, Relay.setConnection]
  · cases h₁
    cases h₂
    cases h₃
    cases h₄
    cases h₅
    cases h₆
    cases h₇
    cases h₈
    intro _ other
    rcases other with _ | _ | other
    · decide +kernel
    · decide +kernel
    · simp [Relay.setHandler, Relay.fresh, Relay.take, Relay.setConnection,
        Relay.setEntry, Relay.evict]

theorem two_connections_are_paired_sample :
    ∃ s, Relay.machine.runFrom Relay.fresh takingTurns = some s ∧
      (s.handlers 0).decided = true ∧ (s.handlers 1).decided = true ∧
      s.Matched 0 1 := by
  have hrun : (Relay.machine.runFrom Relay.fresh takingTurns).map (fun s =>
      ((s.handlers 0).decided, (s.handlers 1).decided)) = some (true, true) := by
    decide +kernel
  rcases Option.map_eq_some_iff.mp hrun with ⟨s, hs, hdecided⟩
  simp only [Prod.mk.injEq] at hdecided
  have hunclaimed : Relay.fresh.Unclaimed sampleToken := by
    intro c hc
    contradiction
  have hpaired := two_connections_are_paired sampleToken 0 1 (by decide)
    Relay.fresh (Machine.Reachable.of_start Relay.starts_fresh) hunclaimed rfl
    rfl s (Machine.leads_restrict_of_runFrom hs takingTurns_meets) hdecided.1
    hdecided.2
  exact ⟨s, hs, hdecided.1, hdecided.2, hpaired⟩

/-- Both tasks look the token up before one of them registers it, and each
cleanup or overwriting drops the sender of the other. -/
def bothFirst : List RelayEvent :=
  arrives 0 [] ++ arrives 1 [] ++
    [.lookup 0, .lookup 1, .register 0, .register 1, .senderDropped 0,
      .cleanup 0, .senderDropped 1, .cleanup 1]

theorem bothFirst_meets :
    Relay.machine.Meets (Relay.OnlyTwo sampleToken 0 1) Relay.fresh
      bothFirst := by
  refine ⟨trivial, fun s₁ h₁ => ⟨trivial, fun s₂ h₂ => ⟨?_, fun s₃ h₃ =>
    ⟨trivial, fun s₄ h₄ => ⟨trivial, fun s₅ h₅ => ⟨?_, fun s₆ h₆ =>
      ⟨trivial, fun _ _ => ⟨trivial, fun _ _ => ⟨trivial, fun _ _ =>
        ⟨trivial, fun _ _ => ⟨trivial, fun _ _ => ⟨trivial, fun _ _ =>
          ⟨trivial, fun _ _ => ⟨trivial, fun _ _ =>
            trivial⟩⟩⟩⟩⟩⟩⟩⟩⟩⟩⟩⟩⟩⟩
  · cases h₁
    cases h₂
    exact iff_of_true rfl (Or.inl rfl)
  · cases h₁
    cases h₂
    cases h₃
    cases h₄
    cases h₅
    exact iff_of_true rfl (Or.inr rfl)

/-- Neither client reached its timeout, and both were turned away. -/
theorem two_connections_turned_away :
    Relay.fresh.Unclaimed sampleToken ∧
      ∃ s, (Relay.machine.restrict (Relay.OnlyTwo sampleToken 0 1)).Leads
          Relay.fresh s ∧
        s.handlers 0 = .expired sampleToken ∧
        s.handlers 1 = .expired sampleToken ∧ ¬ s.Matched 0 1 := by
  have hrun : (Relay.machine.runFrom Relay.fresh bothFirst).map (fun s =>
      (s.handlers 0, s.handlers 1)) =
        some (.expired sampleToken, .expired sampleToken) := by
    decide +kernel
  rcases Option.map_eq_some_iff.mp hrun with ⟨s, hs, hstates⟩
  simp only [Prod.mk.injEq] at hstates
  refine ⟨?_, s, Machine.leads_restrict_of_runFrom hs bothFirst_meets,
    hstates.1, hstates.2, ?_⟩
  · intro c hc
    contradiction
  · rintro (hmatched | hmatched)
    · rw [hstates.1] at hmatched
      contradiction
    · rw [hstates.2] at hmatched
      contradiction

end P2pShare
