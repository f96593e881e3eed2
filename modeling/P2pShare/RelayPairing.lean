import P2pShare.RelayServer

/-!
# Whom the relay pairs

The oneshot sender of a task is in the map, with the one task that took it, or
used; so at most one stream reaches a task, and it comes from a connection with
the same token.
-/

namespace P2pShare

open ByteStream TransitionMachine

namespace Relay

/-! ## The senders -/

/-- Where the oneshot senders are. -/
structure Registry (s : Relay) : Prop where
  entry : ∀ token h, s.waitMap token = some h →
    (s.handlers h = .waiting token none ∨ s.handlers h = .cleanup token) ∧
      ∀ d, (s.handlers d).target? ≠ some h
  target : ∀ d h, (s.handlers d).target? = some h →
    (s.handlers h).registered = true ∧
      (s.handlers h).token? = (s.handlers d).token?
  unique : ∀ d e h, (s.handlers d).target? = some h →
    (s.handlers e).target? = some h → d = e
  guest : ∀ h p, (s.handlers h).guest? = some p →
    ∃ token, s.handlers p = .handed token h

end Relay

/-- The task moves on and keeps its place among the senders. -/
structure Handler.Moves (old new : Handler) : Prop where
  target : new.target? = old.target?
  registered : old.registered = true → new.registered = true
  token : ∀ token, old.token? = some token → new.token? = some token
  guest : new.guest? = old.guest? ∨ new.guest? = none
  handed : ∀ token first, old ≠ .handed token first

theorem Handler.peer?_eq_guest? {handler : Handler} {peer : ℕ}
    (hpeer : handler.peer? = some peer) : handler.guest? = some peer := by
  cases handler with
  | waiting token sent => contradiction
  | _ => exact hpeer

theorem Handler.token?_of_registered {handler : Handler}
    (hregistered : handler.registered = true) :
    ∃ token, handler.token? = some token := by
  cases handler with
  | waiting token sent => exact ⟨token, rfl⟩
  | cleanup token => exact ⟨token, rfl⟩
  | expired token => exact ⟨token, rfl⟩
  | signalFirst token peer => exact ⟨token, rfl⟩
  | signalPeer token peer => exact ⟨token, rfl⟩
  | piping token peer toPeer fromPeer => exact ⟨token, rfl⟩
  | returned token peer => exact ⟨token, rfl⟩
  | _ => contradiction

namespace Relay

variable {s t : Relay}

theorem Registry.of_eq (hs : s.Registry) (hhandlers : t.handlers = s.handlers)
    (hmap : t.waitMap = s.waitMap) : t.Registry := by
  constructor
  · rw [hhandlers, hmap]
    exact hs.entry
  · rw [hhandlers]
    exact hs.target
  · rw [hhandlers]
    exact hs.unique
  · rw [hhandlers]
    exact hs.guest

theorem target_of_moves {id : ℕ} {new : Handler}
    (hmoves : (s.handlers id).Moves new)
    (hhandlers : t.handlers = Function.update s.handlers id new) {d h : ℕ} :
    (t.handlers d).target? = some h ↔ (s.handlers d).target? = some h := by
  rw [hhandlers]
  by_cases hid : d = id
  · subst d
    rw [Function.update_self, hmoves.target]
  · rw [Function.update_of_ne hid]

/-- One task moves on; the entries of the map are as they should be. -/
theorem Registry.moves {id : ℕ} {new : Handler} (hs : s.Registry)
    (hmoves : (s.handlers id).Moves new)
    (hhandlers : t.handlers = Function.update s.handlers id new)
    (hentry : ∀ token h, t.waitMap token = some h →
      (t.handlers h = .waiting token none ∨ t.handlers h = .cleanup token) ∧
        ∀ d, (s.handlers d).target? ≠ some h) :
    t.Registry := by
  have htarget : ∀ d h, (t.handlers d).target? = some h ↔
      (s.handlers d).target? = some h := fun d h =>
    target_of_moves hmoves hhandlers
  constructor
  · intro token h hh
    rcases hentry token h hh with ⟨hstate, hfree⟩
    exact ⟨hstate, fun d hd => hfree d ((htarget d h).mp hd)⟩
  · intro d h hd
    have hold := hs.target d h ((htarget d h).mp hd)
    rcases Handler.token?_of_registered hold.1 with ⟨token, htoken⟩
    have hnew : (t.handlers h).registered = true ∧
        (t.handlers h).token? = some token := by
      rw [hhandlers]
      by_cases hid : h = id
      · subst h
        rw [Function.update_self]
        exact ⟨hmoves.registered hold.1, hmoves.token token htoken⟩
      · rw [Function.update_of_ne hid]
        exact ⟨hold.1, htoken⟩
    have hsame : (t.handlers d).token? = some token := by
      have hdold : (s.handlers d).token? = some token := by
        rw [← hold.2]
        exact htoken
      rw [hhandlers]
      by_cases hid : d = id
      · subst d
        rw [Function.update_self]
        exact hmoves.token token hdold
      · rw [Function.update_of_ne hid]
        exact hdold
    exact ⟨hnew.1, hnew.2.trans hsame.symm⟩
  · intro d e h hd he
    exact hs.unique d e h ((htarget d h).mp hd) ((htarget e h).mp he)
  · intro h p hp
    have hold : (s.handlers h).guest? = some p := by
      rw [hhandlers] at hp
      by_cases hid : h = id
      · subst h
        rw [Function.update_self] at hp
        rcases hmoves.guest with hsame | hnone
        · rw [← hsame]
          exact hp
        · rw [hnone] at hp
          contradiction
      · rw [Function.update_of_ne hid] at hp
        exact hp
    rcases hs.guest h p hold with ⟨token, hhanded⟩
    refine ⟨token, ?_⟩
    rw [hhandlers]
    by_cases hid : p = id
    · subst p
      exact absurd hhanded (hmoves.handed token h)
    · rw [Function.update_of_ne hid]
      exact hhanded

/-- One task moves on and the map stays as it is. -/
theorem Registry.moves_alone {id : ℕ} {new : Handler} (hs : s.Registry)
    (hmoves : (s.handlers id).Moves new)
    (hhandlers : t.handlers = Function.update s.handlers id new)
    (hmap : t.waitMap = s.waitMap)
    (hentry : ∀ token, s.waitMap token = some id →
      new = .waiting token none ∨ new = .cleanup token) :
    t.Registry := by
  apply hs.moves hmoves hhandlers
  intro token h hh
  rw [hmap] at hh
  rcases hs.entry token h hh with ⟨hstate, hfree⟩
  refine ⟨?_, hfree⟩
  rw [hhandlers]
  by_cases hid : h = id
  · subst h
    rw [Function.update_self]
    exact hentry token hh
  · rw [Function.update_of_ne hid]
    exact hstate

/-- A task that has not registered has no entry. -/
theorem Registry.no_entry {id : ℕ} (hs : s.Registry)
    (hunregistered : (s.handlers id).registered = false) {token : Token} :
    s.waitMap token ≠ some id := by
  intro hentry
  rcases (hs.entry token id hentry).1 with hstate | hstate
  · rw [hstate] at hunregistered
    contradiction
  · rw [hstate] at hunregistered
    contradiction

theorem Registry.not_targeted {id : ℕ} (hs : s.Registry)
    (hunregistered : (s.handlers id).registered = false) (d : ℕ) :
    (s.handlers d).target? ≠ some id := by
  intro hd
  rw [(hs.target d id hd).1] at hunregistered
  contradiction

/-- A task has at most one entry. -/
theorem Registry.entry_inj {token other : Token} {h : ℕ} (hs : s.Registry)
    (htoken : s.waitMap token = some h) (hother : s.waitMap other = some h) :
    token = other := by
  have hstate := (hs.entry token h htoken).1
  have hstate' := (hs.entry other h hother).1
  have htoken? : (s.handlers h).token? = some token := by
    rcases hstate with h₁ | h₁
    · rw [h₁]
      rfl
    · rw [h₁]
      rfl
  have hother? : (s.handlers h).token? = some other := by
    rcases hstate' with h₁ | h₁
    · rw [h₁]
      rfl
    · rw [h₁]
      rfl
  rw [htoken?] at hother?
  exact Option.some.inj hother?

/-- A task that has not registered moves on. -/
theorem registry_of_unregistered {id : ℕ} {old : Handler} (new : Handler)
    (hs : s.Registry) (hid : s.handlers id = old)
    (hunregistered : old.registered = false)
    (hmoves : old.Moves new)
    (hhandlers : t.handlers = Function.update s.handlers id new)
    (hmap : t.waitMap = s.waitMap) : t.Registry := by
  subst hid
  apply hs.moves_alone hmoves hhandlers hmap
  intro token hentry
  exact absurd hentry (hs.no_entry hunregistered)

theorem registry_lookup {id first : ℕ} {token : Token} (hs : s.Registry)
    (hid : s.handlers id = .lookup token)
    (hfirst : s.waitMap token = some first) :
    ((s.setEntry token none).setHandler id (.sending token first)).Registry := by
  have hunregistered : (s.handlers id).registered = false := by
    rw [hid]
    rfl
  rcases hs.entry token first hfirst with ⟨hstate, hfree⟩
  have hne : first ≠ id := by
    rintro rfl
    exact hs.no_entry hunregistered hfirst
  have hregistered : (s.handlers first).registered = true ∧
      (s.handlers first).token? = some token := by
    rcases hstate with hstate | hstate
    · rw [hstate]
      exact ⟨rfl, rfl⟩
    · rw [hstate]
      exact ⟨rfl, rfl⟩
  constructor
  · intro other h hh
    simp only [setHandler_waitMap, setEntry, Function.update_apply] at hh
    split at hh
    next => contradiction
    next hother =>
      rcases hs.entry other h hh with ⟨hstate', hfree'⟩
      have hhid : h ≠ id := by
        rintro rfl
        exact hs.no_entry hunregistered hh
      have hhfirst : h ≠ first := by
        rintro rfl
        exact hother (hs.entry_inj hh hfirst)
      refine ⟨?_, ?_⟩
      · simpa only [setHandler_handlers, setEntry, Function.update_of_ne hhid]
          using hstate'
      · intro d hd
        simp only [setHandler_handlers, setEntry] at hd
        by_cases hdid : d = id
        · subst d
          rw [Function.update_self] at hd
          cases hd
          exact hhfirst rfl
        · rw [Function.update_of_ne hdid] at hd
          exact hfree' d hd
  · intro d h hd
    simp only [setHandler_handlers, setEntry] at hd ⊢
    by_cases hdid : d = id
    · subst d
      rw [Function.update_self] at hd ⊢
      cases hd
      rw [Function.update_of_ne hne]
      exact hregistered
    · rw [Function.update_of_ne hdid] at hd ⊢
      have hhid : h ≠ id := by
        rintro rfl
        exact hs.not_targeted hunregistered d hd
      rw [Function.update_of_ne hhid]
      exact hs.target d h hd
  · intro d e h hd he
    simp only [setHandler_handlers, setEntry] at hd he
    by_cases hdid : d = id
    · by_cases heid : e = id
      · rw [hdid, heid]
      · subst d
        rw [Function.update_self] at hd
        cases hd
        rw [Function.update_of_ne heid] at he
        exact absurd he (hfree e)
    · rw [Function.update_of_ne hdid] at hd
      by_cases heid : e = id
      · subst e
        rw [Function.update_self] at he
        cases he
        exact absurd hd (hfree d)
      · rw [Function.update_of_ne heid] at he
        exact hs.unique d e h hd he
  · intro h p hp
    simp only [setHandler_handlers, setEntry] at hp ⊢
    by_cases hhid : h = id
    · subst h
      rw [Function.update_self] at hp
      contradiction
    · rw [Function.update_of_ne hhid] at hp
      rcases hs.guest h p hp with ⟨other, hhanded⟩
      have hpid : p ≠ id := by
        rintro rfl
        rw [hid] at hhanded
        contradiction
      refine ⟨other, ?_⟩
      rw [Function.update_of_ne hpid]
      exact hhanded

theorem registry_hand {id first : ℕ} {token : Token} (hs : s.Registry)
    (hid : s.handlers id = .sending token first) :
    (s.hand id token first).Registry := by
  have hfirst : (s.handlers id).target? = some first := by
    rw [hid]
    rfl
  have hunregistered : (s.handlers id).registered = false := by
    rw [hid]
    rfl
  unfold hand
  split
  next firstToken hwaiting =>
    have hne : first ≠ id := by
      rintro rfl
      rw [hid] at hwaiting
      contradiction
    have hunentered : ∀ other, s.waitMap other ≠ some first := fun other hother =>
      (hs.entry other first hother).2 id hfirst
    have htarget : ∀ d h,
        (((s.setHandler first (.waiting firstToken (some id))).setHandler id
          (.handed token first)).handlers d).target? = some h ↔
          (s.handlers d).target? = some h := by
      intro d h
      simp only [setHandler_handlers]
      by_cases hdid : d = id
      · subst d
        rw [Function.update_self, hid]
        rfl
      · rw [Function.update_of_ne hdid]
        by_cases hdfirst : d = first
        · subst d
          rw [Function.update_self, hwaiting]
          rfl
        · rw [Function.update_of_ne hdfirst]
    constructor
    · intro other h hh
      rcases hs.entry other h hh with ⟨hstate, hfree⟩
      refine ⟨?_, fun d hd => hfree d ((htarget d h).mp hd)⟩
      have hhid : h ≠ id := by
        rintro rfl
        exact hs.no_entry hunregistered hh
      have hhfirst : h ≠ first := by
        rintro rfl
        exact hunentered other hh
      simp only [setHandler_handlers]
      rw [Function.update_of_ne hhid, Function.update_of_ne hhfirst]
      exact hstate
    · intro d h hd
      have hold := hs.target d h ((htarget d h).mp hd)
      have hkeeps : ∀ c, (((s.setHandler first
            (.waiting firstToken (some id))).setHandler id
              (.handed token first)).handlers c).token? =
            (s.handlers c).token? ∧
          (((s.setHandler first
            (.waiting firstToken (some id))).setHandler id
              (.handed token first)).handlers c).registered =
            (s.handlers c).registered := by
        intro c
        simp only [setHandler_handlers]
        by_cases hcid : c = id
        · subst c
          rw [Function.update_self, hid]
          exact ⟨rfl, rfl⟩
        · rw [Function.update_of_ne hcid]
          by_cases hcfirst : c = first
          · subst c
            rw [Function.update_self, hwaiting]
            exact ⟨rfl, rfl⟩
          · rw [Function.update_of_ne hcfirst]
            exact ⟨rfl, rfl⟩
      rw [(hkeeps h).1, (hkeeps h).2, (hkeeps d).1]
      exact hold
    · intro d e h hd he
      exact hs.unique d e h ((htarget d h).mp hd) ((htarget e h).mp he)
    · intro h p hp
      simp only [setHandler_handlers] at hp ⊢
      by_cases hhid : h = id
      · subst h
        rw [Function.update_self] at hp
        contradiction
      · rw [Function.update_of_ne hhid] at hp
        by_cases hhfirst : h = first
        · subst h
          rw [Function.update_self] at hp
          cases hp
          refine ⟨token, ?_⟩
          rw [Function.update_self]
        · rw [Function.update_of_ne hhfirst] at hp
          rcases hs.guest h p hp with ⟨other, hhanded⟩
          have hpid : p ≠ id := by
            rintro rfl
            rw [hid] at hhanded
            contradiction
          have hpfirst : p ≠ first := by
            rintro rfl
            rw [hwaiting] at hhanded
            contradiction
          refine ⟨other, ?_⟩
          rw [Function.update_of_ne hpid, Function.update_of_ne hpfirst]
          exact hhanded
  next =>
    apply registry_of_unregistered (.refused token first) hs hid
    · rfl
    · exact ⟨rfl, fun h => h, fun _ h => h, Or.inl rfl, by simp⟩
    · rfl
    · rfl

theorem registry_register {id : ℕ} {token : Token} (hs : s.Registry)
    (hid : s.handlers id = .register token) :
    (((s.evict token).setEntry token (some id)).setHandler id
      (.waiting token none)).Registry := by
  have hunregistered : (s.handlers id).registered = false := by
    rw [hid]
    rfl
  apply @Registry.moves s _ id (.waiting token none) hs
  · rw [hid]
    exact ⟨rfl, by simp [Handler.registered], fun _ h => h, Or.inr rfl, by simp⟩
  · rfl
  · intro other h hh
    simp only [setHandler_waitMap, setEntry, Function.update_apply] at hh
    split at hh
    next hother =>
      cases hh
      subst hother
      refine ⟨Or.inl ?_, hs.not_targeted hunregistered⟩
      simp
    next =>
      rcases hs.entry other h hh with ⟨hstate, hfree⟩
      refine ⟨?_, hfree⟩
      have hhid : h ≠ id := by
        rintro rfl
        exact hs.no_entry hunregistered hh
      simpa only [setHandler_handlers, setEntry, evict,
        Function.update_of_ne hhid] using hstate

theorem registry_cleanup {id : ℕ} {token : Token} {evictions : List (ℕ × ℕ)}
    (hs : s.Registry) (hid : s.handlers id = .cleanup token) :
    (({ s.evict token with evictions }.setEntry token none).setHandler id
      (.expired token)).Registry := by
  apply @Registry.moves s _ id (.expired token) hs
  · rw [hid]
    exact ⟨rfl, fun h => h, fun _ h => h, Or.inr rfl, by simp⟩
  · rfl
  · intro other h hh
    simp only [setHandler_waitMap, setEntry, Function.update_apply] at hh
    split at hh
    next => contradiction
    next hother =>
      rcases hs.entry other h hh with ⟨hstate, hfree⟩
      refine ⟨?_, hfree⟩
      have hhid : h ≠ id := by
        rintro rfl
        rw [hid] at hstate
        rcases hstate with h' | h'
        · contradiction
        · cases h'
          exact hother rfl
      simpa only [setHandler_handlers, setEntry, evict,
        Function.update_of_ne hhid] using hstate

theorem registry_of_starts (hstart : Starts s) : s.Registry := by
  constructor
  · intro token h hh
    rw [hstart.waitMap] at hh
    contradiction
  · intro d h hd
    rw [hstart.handlers] at hd
    contradiction
  · intro d e h hd
    rw [hstart.handlers] at hd
    contradiction
  · intro h p hp
    rw [hstart.handlers] at hp
    contradiction

/-- A task with an entry waits for a stream or is about to clean up. -/
theorem Registry.no_entry_of_ne {id : ℕ} (hs : s.Registry)
    (hwaiting : ∀ token, s.handlers id ≠ .waiting token none)
    (hcleanup : ∀ token, s.handlers id ≠ .cleanup token) {token : Token} :
    s.waitMap token ≠ some id := by
  intro hentry
  rcases (hs.entry token id hentry).1 with hstate | hstate
  · exact hwaiting token hstate
  · exact hcleanup token hstate

theorem registry_cleanup_of_waiting {id : ℕ} {token : Token}
    {sent : Option ℕ} (hs : s.Registry)
    (hid : s.handlers id = .waiting token sent) :
    (s.setHandler id (.cleanup token)).Registry := by
  apply @Registry.moves_alone s _ id (.cleanup token) hs
  · rw [hid]
    exact ⟨rfl, fun h => h, fun _ h => h, Or.inr rfl, by simp⟩
  · rfl
  · rfl
  · intro other hother
    rcases (hs.entry other id hother).1 with hstate | hstate
    · rw [hid] at hstate
      cases hstate
      exact Or.inr rfl
    · rw [hid] at hstate
      contradiction

/-- A task that is paired keeps its peer. -/
theorem registry_of_paired {id peer : ℕ} {old : Handler} (new : Handler)
    (hs : s.Registry) (hid : s.handlers id = old) (hold : old.peer? = some peer)
    (hnew : new.peer? = some peer) (htoken : new.token? = old.token?)
    (hhandlers : t.handlers = Function.update s.handlers id new)
    (hmap : t.waitMap = s.waitMap) : t.Registry := by
  have hregistered : new.registered = true := by
    cases new with
    | signalFirst token other => rfl
    | signalPeer token other => rfl
    | piping token other toPeer fromPeer => rfl
    | returned token other => rfl
    | _ => contradiction
  have htarget : ∀ handler : Handler, handler.peer? = some peer →
      handler.target? = none := by
    intro handler hpeer
    cases handler with
    | sending token first => contradiction
    | handed token first => contradiction
    | refused token first => contradiction
    | _ => rfl
  apply @Registry.moves_alone s t id new hs
  · rw [hid]
    constructor
    · rw [htarget new hnew, htarget old hold]
    · exact fun _ => hregistered
    · intro token htoken?
      rw [htoken]
      exact htoken?
    · refine Or.inl ?_
      rw [Handler.peer?_eq_guest? hnew, Handler.peer?_eq_guest? hold]
    · rintro token first rfl
      contradiction
  · exact hhandlers
  · exact hmap
  · intro token hentry
    refine absurd hentry (hs.no_entry_of_ne ?_ ?_)
    · rintro other hstate
      rw [hid] at hstate
      subst hstate
      contradiction
    · intro other hstate
      rw [hid] at hstate
      subst hstate
      contradiction

theorem peer?_pipe (token : Token) (peer : ℕ) (toPeer fromPeer : Copy) :
    (pipe token peer toPeer fromPeer).peer? = some peer ∧
      (pipe token peer toPeer fromPeer).token? = some token := by
  unfold pipe
  split
  · exact ⟨rfl, rfl⟩
  · exact ⟨rfl, rfl⟩

theorem registry_next {event : RelayEvent} (hs : s.Registry)
    (hnext : next s event = some t) : t.Registry := by
  cases event with
  | accept id =>
      simp only [next] at hnext
      split at hnext
      next hid =>
        cases hnext
        apply registry_of_unregistered .reading hs hid
        · rfl
        · exact ⟨rfl, fun h => h, by simp [Handler.token?], Or.inr rfl, by simp⟩
        · rfl
        · rfl
      next => contradiction
  | clientWrites id bytes =>
      simp only [next] at hnext
      split at hnext
      next => contradiction
      next =>
        cases hnext
        exact hs.of_eq rfl rfl
  | clientCloses id =>
      cases hnext
      exact hs.of_eq rfl rfl
  | readToken id =>
      simp only [next] at hnext
      split at hnext
      next hid =>
        split at hnext
        next =>
          cases hnext
          apply registry_of_unregistered
            (.lookup ((s.connections id).wrote.take tokenLength)) hs hid
          · rfl
          · exact ⟨rfl, by simp [Handler.registered], by simp [Handler.token?],
              Or.inr rfl, by simp⟩
          · rfl
          · rfl
        next => contradiction
      next => contradiction
  | readFails id =>
      simp only [next] at hnext
      split at hnext
      next hid =>
        cases hnext
        apply registry_of_unregistered .unread hs hid
        · rfl
        · exact ⟨rfl, fun h => h, by simp [Handler.token?], Or.inr rfl, by simp⟩
        · rfl
        · rfl
      next => contradiction
  | lookup id =>
      simp only [next] at hnext
      split at hnext
      next token hid =>
        split at hnext
        next first hfirst =>
          cases hnext
          exact registry_lookup hs hid hfirst
        next =>
          cases hnext
          apply registry_of_unregistered (.register token) hs hid
          · rfl
          · exact ⟨rfl, fun h => h, fun _ h => h, Or.inr rfl, by simp⟩
          · rfl
          · rfl
      next => contradiction
  | send id =>
      simp only [next] at hnext
      split at hnext
      next token first hid =>
        cases hnext
        exact registry_hand hs hid
      next => contradiction
  | register id =>
      simp only [next] at hnext
      split at hnext
      next token hid =>
        cases hnext
        exact registry_register hs hid
      next => contradiction
  | takePeer id =>
      simp only [next] at hnext
      split at hnext
      next token peer hid =>
        cases hnext
        apply @Registry.moves_alone s _ id (.signalFirst token peer) hs
        · rw [hid]
          exact ⟨rfl, fun h => h, fun _ h => h, Or.inl rfl, by simp⟩
        · rfl
        · rfl
        · intro other hentry
          refine absurd hentry (hs.no_entry_of_ne ?_ ?_)
          · simp [hid]
          · simp [hid]
      next => contradiction
  | timesOut id =>
      simp only [next] at hnext
      split at hnext
      next token sent hid =>
        cases hnext
        exact registry_cleanup_of_waiting hs hid
      next => contradiction
  | senderDropped id =>
      simp only [next] at hnext
      split at hnext
      next token hid =>
        split at hnext
        next =>
          cases hnext
          exact registry_cleanup_of_waiting hs hid
        next => contradiction
      next => contradiction
  | cleanup id =>
      simp only [next] at hnext
      split at hnext
      next token hid =>
        cases hnext
        exact registry_cleanup hs hid
      next => contradiction
  | signal id =>
      simp only [next] at hnext
      split at hnext
      next token peer hid =>
        cases hnext
        exact registry_of_paired (.signalPeer token peer) hs hid rfl rfl rfl
          rfl rfl
      next token peer hid =>
        cases hnext
        exact registry_of_paired (.piping token peer .start .start) hs hid rfl
          rfl rfl rfl rfl
      next => contradiction
  | signalFails id =>
      simp only [next] at hnext
      split at hnext
      next token peer hid =>
        cases hnext
        exact registry_of_paired (.returned token peer) hs hid rfl rfl rfl rfl
          rfl
      next token peer hid =>
        cases hnext
        exact registry_of_paired (.returned token peer) hs hid rfl rfl rfl rfl
          rfl
      next => contradiction
  | poll id stepTo stepFrom =>
      simp only [next] at hnext
      split at hnext
      next token peer toPeer fromPeer hid =>
        rcases Option.bind_eq_some_iff.mp hnext with
          ⟨⟨toPeer', readTo, bytesTo⟩, _, hfrom⟩
        rcases Option.map_eq_some_iff.mp hfrom with
          ⟨⟨fromPeer', readFrom, bytesFrom⟩, _, rfl⟩
        have hpipe := peer?_pipe token peer toPeer' fromPeer'
        exact registry_of_paired (pipe token peer toPeer' fromPeer') hs hid rfl
          hpipe.1 hpipe.2 rfl rfl
      next => contradiction

theorem registry_of_reachable (hreach : machine.Reachable s) : s.Registry := by
  apply hreach.invariant
  · exact fun _ hstart => registry_of_starts hstart
  · exact fun _ _ _ hs hnext => registry_next hs hnext

/-! ## Pairs are disjoint -/

theorem Registry.handed {h p : ℕ} (hs : s.Registry)
    (hpeer : (s.handlers h).peer? = some p) :
    ∃ token, s.handlers p = .handed token h :=
  hs.guest h p (Handler.peer?_eq_guest? hpeer)

/-- The connection that was handed over is not the task of another pair. -/
theorem Registry.peer?_of_handed {h p : ℕ} (hs : s.Registry)
    (hpeer : (s.handlers h).peer? = some p) : (s.handlers p).peer? = none := by
  rcases hs.handed hpeer with ⟨token, hhanded⟩
  rw [hhanded]
  rfl

theorem Registry.host_unique {h k p : ℕ} (hs : s.Registry)
    (hh : (s.handlers h).peer? = some p) (hk : (s.handlers k).peer? = some p) :
    h = k := by
  rcases hs.handed hh with ⟨token, hhanded⟩
  rcases hs.handed hk with ⟨other, hhanded'⟩
  rw [hhanded] at hhanded'
  cases hhanded'
  rfl

theorem Registry.piped_unique {a b c : ℕ} (hs : s.Registry)
    (hb : s.Piped a b) (hc : s.Piped a c) : b = c := by
  rcases hb with hb | hb
  · rcases hc with hc | hc
    · rw [hb] at hc
      exact Option.some.inj hc
    · rw [hs.peer?_of_handed hc] at hb
      contradiction
  · rcases hc with hc | hc
    · rw [hs.peer?_of_handed hb] at hc
      contradiction
    · exact hs.host_unique hb hc

theorem Registry.not_piped_self {a : ℕ} (hs : s.Registry) : ¬ s.Piped a a := by
  intro hpiped
  have hpeer : (s.handlers a).peer? = some a := by
    rcases hpiped with h | h
    · exact h
    · exact h
  rw [hs.peer?_of_handed hpeer] at hpeer
  contradiction

theorem Registry.token?_of_piped {a b : ℕ} (hs : s.Registry)
    (hpiped : s.Piped a b) :
    ∃ token, (s.handlers a).token? = some token ∧
      (s.handlers b).token? = some token := by
  have hhost : ∀ h p, (s.handlers h).peer? = some p →
      ∃ token, (s.handlers h).token? = some token ∧
        (s.handlers p).token? = some token := by
    intro h p hpeer
    rcases hs.handed hpeer with ⟨token, hhanded⟩
    have htarget : (s.handlers p).target? = some h := by
      rw [hhanded]
      rfl
    have htoken : (s.handlers p).token? = some token := by
      rw [hhanded]
      rfl
    refine ⟨token, ?_, htoken⟩
    rw [(hs.target p h htarget).2]
    exact htoken
  rcases hpiped with hpeer | hpeer
  · exact hhost a b hpeer
  · rcases hhost b a hpeer with ⟨token, hb, ha⟩
    exact ⟨token, ha, hb⟩

end Relay

end P2pShare
