import P2pShare.RelayServer

/-!
# One peer of a relay session disconnects

The two copy loops of a session end together only when both peers are found at
their end in the same poll; otherwise one peer stays connected to a session
whose other side is gone.
-/

namespace P2pShare

open ByteStream TransitionMachine

namespace Relay

/-- One direction has ended and the task still waits for the other. -/
def HalfOpen (s : Relay) : Prop :=
  ∃ id token peer toPeer fromPeer,
    s.handlers id = .piping token peer toPeer fromPeer ∧
      (toPeer.ended = true ∨ fromPeer.ended = true)

/-- A poll that ends one direction of a session ends the other as well. -/
def EndsTogether (_ : Relay) : RelayEvent → Prop
  | .poll _ toPeer fromPeer => toPeer.ends = fromPeer.ends
  | _ => True

variable {s t : Relay}

theorem ended_poll {copy next : Copy} {source : Connection} {step : CopyStep}
    {read : ℕ} {bytes : Bytes} (hopen : copy.ended = false)
    (hpoll : copy.poll source step = some (next, read, bytes)) :
    next.ended = step.ends := by
  cases step with
  | idle =>
      cases hpoll
      exact hopen
  | moves count written =>
      simp only [Copy.poll, hopen] at hpoll
      cases hpoll
      rfl
  | endOfStream =>
      simp only [Copy.poll] at hpoll
      split at hpoll
      next =>
        cases hpoll
        rfl
      next => contradiction
  | fails =>
      simp only [Copy.poll, hopen] at hpoll
      cases hpoll
      rfl

/-- Only a poll changes a task that pipes into another one, and only the second
signal makes one. -/
theorem piping_of_next {event : RelayEvent} (hnext : next s event = some t)
    (hpoll : ∀ id stepTo stepFrom, event ≠ .poll id stepTo stepFrom)
    {id peer : ℕ} {token : Token} {toPeer fromPeer : Copy}
    (hpiping : t.handlers id = .piping token peer toPeer fromPeer) :
    s.handlers id = .piping token peer toPeer fromPeer ∨
      toPeer = .start ∧ fromPeer = .start := by
  have hupdate : ∀ (u : Relay) (other : ℕ) (handler : Handler),
      u.handlers = s.handlers →
        (∀ token peer toPeer fromPeer,
          handler ≠ .piping token peer toPeer fromPeer) →
        (u.setHandler other handler).handlers id =
          .piping token peer toPeer fromPeer →
        s.handlers id = .piping token peer toPeer fromPeer := by
    intro u other handler hu hnot hstate
    rw [setHandler_handlers, hu] at hstate
    by_cases hid : id = other
    · subst id
      rw [Function.update_self] at hstate
      exact absurd hstate (hnot token peer toPeer fromPeer)
    · rw [Function.update_of_ne hid] at hstate
      exact hstate
  cases event with
  | poll other stepTo stepFrom => exact absurd rfl (hpoll other stepTo stepFrom)
  | accept other =>
      simp only [next] at hnext
      split at hnext
      next =>
        cases hnext
        exact Or.inl (hupdate s other _ rfl (by simp) hpiping)
      next => contradiction
  | clientWrites other bytes =>
      simp only [next] at hnext
      split at hnext
      next => contradiction
      next =>
        cases hnext
        exact Or.inl hpiping
  | clientCloses other =>
      cases hnext
      exact Or.inl hpiping
  | readToken other =>
      simp only [next] at hnext
      split at hnext
      next =>
        split at hnext
        next =>
          cases hnext
          exact Or.inl (hupdate _ other _ rfl (by simp) hpiping)
        next => contradiction
      next => contradiction
  | readFails other =>
      simp only [next] at hnext
      split at hnext
      next =>
        cases hnext
        exact Or.inl (hupdate s other _ rfl (by simp) hpiping)
      next => contradiction
  | lookup other =>
      simp only [next] at hnext
      split at hnext
      next =>
        split at hnext
        next =>
          cases hnext
          exact Or.inl (hupdate _ other _ rfl (by simp) hpiping)
        next =>
          cases hnext
          exact Or.inl (hupdate s other _ rfl (by simp) hpiping)
      next => contradiction
  | send other =>
      simp only [next] at hnext
      split at hnext
      next token' first hid =>
        cases hnext
        unfold hand at hpiping
        split at hpiping
        next firstToken hwaiting =>
          rw [setHandler_handlers] at hpiping
          by_cases hother : id = other
          · subst id
            rw [Function.update_self] at hpiping
            contradiction
          · rw [Function.update_of_ne hother] at hpiping
            exact Or.inl (hupdate s first _ rfl (by simp) hpiping)
        next => exact Or.inl (hupdate s other _ rfl (by simp) hpiping)
      next => contradiction
  | register other =>
      simp only [next] at hnext
      split at hnext
      next =>
        cases hnext
        exact Or.inl (hupdate _ other _ rfl (by simp) hpiping)
      next => contradiction
  | takePeer other =>
      simp only [next] at hnext
      split at hnext
      next =>
        cases hnext
        exact Or.inl (hupdate s other _ rfl (by simp) hpiping)
      next => contradiction
  | timesOut other =>
      simp only [next] at hnext
      split at hnext
      next =>
        cases hnext
        exact Or.inl (hupdate s other _ rfl (by simp) hpiping)
      next => contradiction
  | senderDropped other =>
      simp only [next] at hnext
      split at hnext
      next =>
        split at hnext
        next =>
          cases hnext
          exact Or.inl (hupdate s other _ rfl (by simp) hpiping)
        next => contradiction
      next => contradiction
  | cleanup other =>
      simp only [next] at hnext
      split at hnext
      next =>
        cases hnext
        exact Or.inl (hupdate _ other _ rfl (by simp) hpiping)
      next => contradiction
  | signal other =>
      simp only [next] at hnext
      split at hnext
      next =>
        cases hnext
        exact Or.inl (hupdate _ other _ rfl (by simp) hpiping)
      next =>
        cases hnext
        rw [setHandler_handlers, write_handlers] at hpiping
        by_cases hother : id = other
        · subst id
          rw [Function.update_self] at hpiping
          cases hpiping
          exact Or.inr ⟨rfl, rfl⟩
        · rw [Function.update_of_ne hother] at hpiping
          exact Or.inl hpiping
      next => contradiction
  | signalFails other =>
      simp only [next] at hnext
      split at hnext
      next =>
        cases hnext
        exact Or.inl (hupdate s other _ rfl (by simp) hpiping)
      next =>
        cases hnext
        exact Or.inl (hupdate s other _ rfl (by simp) hpiping)
      next => contradiction

theorem halfOpen_poll {id : ℕ} {stepTo stepFrom : CopyStep}
    (hclosed : ¬ s.HalfOpen)
    (hnext : next s (.poll id stepTo stepFrom) = some t) :
    ¬ t.HalfOpen ↔ stepTo.ends = stepFrom.ends := by
  simp only [next] at hnext
  split at hnext
  next token peer toPeer fromPeer hid =>
    rcases Option.bind_eq_some_iff.mp hnext with
      ⟨⟨toPeer', readTo, bytesTo⟩, hto, hrest⟩
    rcases Option.map_eq_some_iff.mp hrest with
      ⟨⟨fromPeer', readFrom, bytesFrom⟩, hfrom, ht⟩
    have hopenTo : toPeer.ended = false := by
      by_contra hended
      rw [Bool.not_eq_false] at hended
      exact hclosed ⟨id, token, peer, toPeer, fromPeer, hid, Or.inl hended⟩
    have hopenFrom : fromPeer.ended = false := by
      by_contra hended
      rw [Bool.not_eq_false] at hended
      exact hclosed ⟨id, token, peer, toPeer, fromPeer, hid, Or.inr hended⟩
    rw [← ended_poll hopenTo hto, ← ended_poll hopenFrom hfrom]
    have hself : t.handlers id = pipe token peer toPeer' fromPeer' := by
      rw [← ht, setHandler_handlers, Function.update_self]
    have hothers : ∀ other, other ≠ id → t.handlers other = s.handlers other := by
      intro other hother
      rw [← ht, setHandler_handlers, Function.update_of_ne hother]
      rfl
    constructor
    · intro hdone
      by_contra hne
      apply hdone
      refine ⟨id, token, peer, toPeer', fromPeer', ?_, ?_⟩
      · rw [hself, pipe, if_neg]
        rintro ⟨hended, hended'⟩
        exact hne (hended.trans hended'.symm)
      · cases hended : toPeer'.ended with
        | true => exact Or.inl rfl
        | false =>
            refine Or.inr ?_
            cases hended' : fromPeer'.ended with
            | true => rfl
            | false => exact absurd (hended.trans hended'.symm) hne
    · rintro heq ⟨other, token', peer', copy, copy', hpiping, hended⟩
      by_cases hother : other = id
      · subst other
        rw [hself, pipe] at hpiping
        split at hpiping
        next => contradiction
        next hnot =>
          cases hpiping
          apply hnot
          rcases hended with hended | hended
          · exact ⟨hended, heq ▸ hended⟩
          · exact ⟨heq.trans hended, hended⟩
      · rw [hothers other hother] at hpiping
        exact hclosed ⟨other, token', peer', copy, copy', hpiping, hended⟩
  next => contradiction

theorem halfOpen_next {event : RelayEvent} (hclosed : ¬ s.HalfOpen)
    (hnext : next s event = some t) : ¬ t.HalfOpen ↔ s.EndsTogether event := by
  by_cases hpoll : ∃ id stepTo stepFrom, event = .poll id stepTo stepFrom
  · rcases hpoll with ⟨id, stepTo, stepFrom, rfl⟩
    exact halfOpen_poll hclosed hnext
  · have hother : ∀ id stepTo stepFrom, event ≠ .poll id stepTo stepFrom :=
      fun id stepTo stepFrom heq => hpoll ⟨id, stepTo, stepFrom, heq⟩
    apply iff_of_true
    · rintro ⟨id, token, peer, toPeer, fromPeer, hpiping, hended⟩
      rcases piping_of_next hnext hother hpiping with hold | ⟨rfl, rfl⟩
      · exact hclosed ⟨id, token, peer, toPeer, fromPeer, hold, hended⟩
      · rcases hended with h | h
        · contradiction
        · contradiction
    · cases event with
      | poll id stepTo stepFrom => exact absurd rfl (hother id stepTo stepFrom)
      | _ => trivial

end Relay

/-- Along an execution of the relay no session is left half open exactly if its
two directions always end in the same poll. -/
theorem never_half_open_iff :
    ∀ history s, Relay.machine.Execution history s →
      (Machine.Throughout (fun s => ¬ s.HalfOpen) history s ↔
        ∀ entry ∈ history, entry.1.EndsTogether entry.2) := by
  intro history s hexec
  apply hexec.throughout_iff
  · rintro s₀ hstart ⟨id, token, peer, toPeer, fromPeer, hpiping, _⟩
    rw [hstart.handlers] at hpiping
    contradiction
  · exact fun u event v _ hclosed hnext => Relay.halfOpen_next hclosed hnext

/-- The first client closes its connection, the second does not. -/
def oneSidedClose : Option Relay :=
  Relay.machine.runFrom Relay.fresh
    (arrives 0 [] ++ arrives 1 [] ++ pairUp 0 1 ++
      [.clientCloses 0, .poll 0 .endOfStream .idle])

theorem oneSidedClose_halfOpen :
    ∃ s, oneSidedClose = some s ∧ s.HalfOpen := by
  have hrun : oneSidedClose.map (fun s => s.handlers 0) =
      some (.piping sampleToken 1 ⟨[], true⟩ ⟨[], false⟩) := by
    decide +kernel
  rcases Option.map_eq_some_iff.mp hrun with ⟨s, hs, hpiping⟩
  exact ⟨s, hs, 0, sampleToken, 1, ⟨[], true⟩, ⟨[], false⟩, hpiping, Or.inl rfl⟩

theorem never_half_open_sample :
    ∃ history s, Relay.machine.Execution history s ∧ oneSidedClose = some s ∧
      ¬ ∀ entry ∈ history, entry.1.EndsTogether entry.2 := by
  rcases oneSidedClose_halfOpen with ⟨s, hs, hopen⟩
  have hreach := Machine.Reachable.of_runFrom Relay.starts_fresh hs
  rcases hreach.execution with ⟨history, hexec⟩
  have hexact := never_half_open_iff history s hexec
  exact ⟨history, s, hexec, hs, fun hends => (hexact.mpr hends).1 hopen⟩

theorem peer_left_open_after_close :
    ∃ s, Relay.machine.Reachable s ∧ s.HalfOpen := by
  rcases oneSidedClose_halfOpen with ⟨s, hs, hopen⟩
  exact ⟨s, Machine.Reachable.of_runFrom Relay.starts_fresh hs, hopen⟩

end P2pShare
