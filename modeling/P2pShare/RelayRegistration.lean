import P2pShare.RelayPairing

/-!
# The cleanup of the wait map

An entry of the wait map is removed by its token, whoever made it.  A condition
on the order of the steps is stated under which a cleanup removes its own entry
only.
-/

namespace P2pShare

open ByteStream TransitionMachine

namespace Relay

variable {s t : Relay}

/-- Each removal of a cleanup branch removed the task's own sender. -/
def EvictsOwn (s : Relay) : Prop :=
  ∀ entry ∈ s.evictions, entry.2 = entry.1

/-- A task registers only when no other task is about to clean its token up,
and stops waiting only when the entry for its token is its own or there is
none. -/
def KeepsEntries (s : Relay) : RelayEvent → Prop
  | .register id => ∀ token, s.handlers id = .register token →
      ∀ other, s.handlers other ≠ .cleanup token
  | .timesOut id | .senderDropped id =>
      ∀ token sent, s.handlers id = .waiting token sent →
        ∀ owner, s.waitMap token = some owner → owner = id
  | _ => True

/-- A task that is about to clean up finds its own entry, or none. -/
structure Tidy (s : Relay) : Prop where
  own : ∀ id token owner, s.handlers id = .cleanup token →
    s.waitMap token = some owner → owner = id
  evicts : s.EvictsOwn

/-- No task begins to clean up and no entry is added. -/
theorem Tidy.frame (hs : s.Tidy)
    (hcleanup : ∀ id token, t.handlers id = .cleanup token →
      s.handlers id = .cleanup token)
    (hmap : ∀ token owner, t.waitMap token = some owner →
      s.waitMap token = some owner)
    (hevictions : t.evictions = s.evictions) : t.Tidy := by
  constructor
  · intro id token owner hid howner
    exact hs.own id token owner (hcleanup id token hid) (hmap token owner howner)
  · unfold EvictsOwn
    rw [hevictions]
    exact hs.evicts

theorem cleanup_of_setHandler {id other : ℕ} {token : Token}
    {handler : Handler} (hnot : ∀ token, handler ≠ .cleanup token)
    (hcleanup : (s.setHandler other handler).handlers id = .cleanup token) :
    s.handlers id = .cleanup token := by
  rw [setHandler_handlers] at hcleanup
  by_cases hid : id = other
  · subst id
    rw [Function.update_self] at hcleanup
    exact absurd hcleanup (hnot token)
  · rw [Function.update_of_ne hid] at hcleanup
    exact hcleanup

theorem waitMap_of_remove {token other : Token} {owner : ℕ}
    (howner : (s.setEntry token none).waitMap other = some owner) :
    s.waitMap other = some owner := by
  simp only [setEntry, Function.update_apply] at howner
  split at howner
  next => contradiction
  next => exact howner

theorem tidy_gives_up {id : ℕ} {token : Token} (hs : s.Tidy)
    (hown : ∀ owner, s.waitMap token = some owner → owner = id) :
    (s.setHandler id (.cleanup token)).Tidy := by
  constructor
  · intro other token' owner hother howner
    rw [setHandler_handlers] at hother
    by_cases heq : other = id
    · subst other
      rw [Function.update_self] at hother
      cases hother
      exact hown owner howner
    · rw [Function.update_of_ne heq] at hother
      exact hs.own other token' owner hother howner
  · exact hs.evicts

theorem tidy_register {id : ℕ} {token : Token} (hs : s.Tidy)
    (hfree : ∀ other, s.handlers other ≠ .cleanup token) :
    (((s.evict token).setEntry token (some id)).setHandler id
      (.waiting token none)).Tidy := by
  constructor
  · intro other token' owner hother howner
    have hold : s.handlers other = .cleanup token' :=
      cleanup_of_setHandler (by simp) hother
    simp only [setHandler_waitMap, setEntry, Function.update_apply] at howner
    split at howner
    next htoken =>
      subst htoken
      exact absurd hold (hfree other)
    next => exact hs.own other token' owner hold howner
  · exact hs.evicts

theorem tidy_cleanup {id : ℕ} {token : Token} (hs : s.Tidy)
    (hid : s.handlers id = .cleanup token) :
    (({ s.evict token with
        evictions := ((s.waitMap token).toList.map fun owner => (id, owner)) ++
          s.evictions }.setEntry token none).setHandler id
      (.expired token)).Tidy := by
  constructor
  · intro other token' owner hother howner
    have hold : s.handlers other = .cleanup token' :=
      cleanup_of_setHandler (by simp) hother
    have hmap : s.waitMap token' = some owner := waitMap_of_remove howner
    exact hs.own other token' owner hold hmap
  · intro entry hentry
    rcases List.mem_append.mp hentry with hnew | hold
    · rcases List.mem_map.mp hnew with ⟨owner, howner, rfl⟩
      rw [Option.mem_toList] at howner
      exact hs.own id token owner hid howner
    · exact hs.evicts entry hold

theorem tidy_next {event : RelayEvent} (hs : s.Tidy)
    (hguard : s.KeepsEntries event) (hnext : next s event = some t) :
    t.Tidy := by
  have hmove : ∀ (u : Relay) (id : ℕ) (handler : Handler),
      u.handlers = s.handlers → u.evictions = s.evictions →
        (∀ token owner, u.waitMap token = some owner →
          s.waitMap token = some owner) →
        (∀ token, handler ≠ .cleanup token) →
          (u.setHandler id handler).Tidy := by
    intro u id handler hhandlers hevictions hmap hnot
    apply hs.frame
    · intro other token hother
      rw [← hhandlers]
      exact cleanup_of_setHandler hnot hother
    · exact hmap
    · exact hevictions
  cases event with
  | accept id =>
      simp only [next] at hnext
      split at hnext
      next =>
        cases hnext
        exact hmove s id .reading rfl rfl (fun _ _ h => h) (by simp)
      next => contradiction
  | clientWrites id bytes =>
      simp only [next] at hnext
      split at hnext
      next => contradiction
      next =>
        cases hnext
        exact hs.frame (fun _ _ h => h) (fun _ _ h => h) rfl
  | clientCloses id =>
      cases hnext
      exact hs.frame (fun _ _ h => h) (fun _ _ h => h) rfl
  | readToken id =>
      simp only [next] at hnext
      split at hnext
      next =>
        split at hnext
        next =>
          cases hnext
          exact hmove (s.take id tokenLength) id (.lookup _) rfl rfl
            (fun _ _ h => h) (by simp)
        next => contradiction
      next => contradiction
  | readFails id =>
      simp only [next] at hnext
      split at hnext
      next =>
        cases hnext
        exact hmove s id .unread rfl rfl (fun _ _ h => h) (by simp)
      next => contradiction
  | lookup id =>
      simp only [next] at hnext
      split at hnext
      next token hid =>
        split at hnext
        next first hfirst =>
          cases hnext
          exact hmove (s.setEntry token none) id (.sending token first) rfl rfl
            (fun _ _ h => waitMap_of_remove h) (by simp)
        next =>
          cases hnext
          exact hmove s id (.register token) rfl rfl (fun _ _ h => h) (by simp)
      next => contradiction
  | send id =>
      simp only [next] at hnext
      split at hnext
      next token first hid =>
        cases hnext
        unfold hand
        split
        next firstToken hwaiting =>
          apply hs.frame
          · intro other token' hother
            have hmiddle := cleanup_of_setHandler (by simp) hother
            exact cleanup_of_setHandler (by simp) hmiddle
          · exact fun _ _ h => h
          · rfl
        next =>
          exact hmove s id (.refused token first) rfl rfl (fun _ _ h => h)
            (by simp)
      next => contradiction
  | register id =>
      simp only [next] at hnext
      split at hnext
      next token hid =>
        cases hnext
        exact tidy_register hs (hguard token hid)
      next => contradiction
  | takePeer id =>
      simp only [next] at hnext
      split at hnext
      next token peer hid =>
        cases hnext
        exact hmove s id (.signalFirst token peer) rfl rfl (fun _ _ h => h)
          (by simp)
      next => contradiction
  | timesOut id =>
      simp only [next] at hnext
      split at hnext
      next token sent hid =>
        cases hnext
        exact tidy_gives_up hs (hguard token sent hid)
      next => contradiction
  | senderDropped id =>
      simp only [next] at hnext
      split at hnext
      next token hid =>
        split at hnext
        next =>
          cases hnext
          exact tidy_gives_up hs (hguard token none hid)
        next => contradiction
      next => contradiction
  | cleanup id =>
      simp only [next] at hnext
      split at hnext
      next token hid =>
        cases hnext
        exact tidy_cleanup hs hid
      next => contradiction
  | signal id =>
      simp only [next] at hnext
      split at hnext
      next token peer hid =>
        cases hnext
        exact hmove (s.write id [1]) id (.signalPeer token peer) rfl rfl
          (fun _ _ h => h) (by simp)
      next token peer hid =>
        cases hnext
        exact hmove (s.write peer [1]) id (.piping token peer .start .start)
          rfl rfl (fun _ _ h => h) (by simp)
      next => contradiction
  | signalFails id =>
      simp only [next] at hnext
      split at hnext
      next token peer hid =>
        cases hnext
        exact hmove s id (.returned token peer) rfl rfl (fun _ _ h => h)
          (by simp)
      next token peer hid =>
        cases hnext
        exact hmove s id (.returned token peer) rfl rfl (fun _ _ h => h)
          (by simp)
      next => contradiction
  | poll id stepTo stepFrom =>
      simp only [next] at hnext
      split at hnext
      next token peer toPeer fromPeer hid =>
        rcases Option.bind_eq_some_iff.mp hnext with
          ⟨⟨toPeer', readTo, bytesTo⟩, _, hfrom⟩
        rcases Option.map_eq_some_iff.mp hfrom with
          ⟨⟨fromPeer', readFrom, bytesFrom⟩, _, rfl⟩
        have hpipe : ∀ other,
            pipe token peer toPeer' fromPeer' ≠ .cleanup other := by
          intro other hpipe
          unfold pipe at hpipe
          split at hpipe
          · contradiction
          · contradiction
        exact hmove ((((s.take id readTo).write peer bytesTo).take peer
          readFrom).write id bytesFrom) id (pipe token peer toPeer' fromPeer')
          rfl rfl (fun _ _ h => h) hpipe
      next => contradiction

theorem tidy_of_starts (hstart : Starts s) : s.Tidy := by
  constructor
  · intro id token owner hid
    rw [hstart.handlers] at hid
    contradiction
  · intro entry hentry
    rw [hstart.evictions] at hentry
    contradiction

end Relay

/-- While entries are kept apart, every cleanup removes its own entry. -/
theorem cleanup_removes_own_entry :
    ∀ s, (Relay.machine.restrict Relay.KeepsEntries).Reachable s →
      s.EvictsOwn := by
  intro s hreach
  have htidy : s.Tidy := by
    apply hreach.invariant_restrict
    · exact fun _ hstart => Relay.tidy_of_starts hstart
    · exact fun _ _ _ hu hguard hnext => Relay.tidy_next hu hguard hnext
  exact htidy.evicts

def loneCleanup : List RelayEvent :=
  arrives 0 [] ++ [.lookup 0, .register 0, .timesOut 0, .cleanup 0]

theorem loneCleanup_keepsEntries :
    Relay.machine.Meets Relay.KeepsEntries Relay.fresh loneCleanup := by
  refine ⟨trivial, fun s₁ h₁ => ⟨trivial, fun s₂ h₂ => ⟨trivial, fun s₃ h₃ =>
    ⟨trivial, fun s₄ h₄ => ⟨?_, fun s₅ h₅ => ⟨?_, fun s₆ h₆ =>
      ⟨trivial, fun _ _ => trivial⟩⟩⟩⟩⟩⟩⟩
  · cases h₁
    cases h₂
    cases h₃
    cases h₄
    intro token htoken other hother
    by_cases hid : other = 0
    · subst other
      rw [htoken] at hother
      contradiction
    · simp [Relay.setHandler, Relay.fresh, hid, Relay.take,
        Relay.setConnection] at hother
  · cases h₁
    cases h₂
    cases h₃
    cases h₄
    cases h₅
    intro token sent htoken owner howner
    simp [Relay.setHandler, Relay.fresh, Relay.setEntry, Relay.evict,
      Relay.take, Relay.setConnection, Function.update_apply] at howner
    exact howner.2.symm

theorem cleanup_removes_own_entry_sample :
    ∃ s, Relay.machine.runFrom Relay.fresh loneCleanup = some s ∧
      s.evictions = [(0, 0)] ∧ s.EvictsOwn := by
  have hrun : (Relay.machine.runFrom Relay.fresh loneCleanup).map
      Relay.evictions = some [(0, 0)] := by
    decide +kernel
  rcases Option.map_eq_some_iff.mp hrun with ⟨s, hs, hevictions⟩
  have hreach : (Relay.machine.restrict Relay.KeepsEntries).Reachable s :=
    ⟨Relay.fresh, Relay.starts_fresh,
      Machine.leads_restrict_of_runFrom hs loneCleanup_keepsEntries⟩
  exact ⟨s, hs, hevictions, cleanup_removes_own_entry s hreach⟩

/-- The first task times out, the second consumes its entry, the third
registers, and then the first cleans up. -/
def staleCleanup : Option Relay :=
  Relay.machine.runFrom Relay.fresh
    (arrives 0 [] ++ [.lookup 0, .register 0, .timesOut 0] ++ arrives 1 [] ++
      [.lookup 1, .send 1] ++ arrives 2 [] ++
      [.lookup 2, .register 2, .cleanup 0])

theorem cleanup_evicts_another :
    ∃ s, Relay.machine.Reachable s ∧ ¬ s.EvictsOwn := by
  have hrun : staleCleanup.map Relay.evictions = some [(0, 2)] := by
    decide +kernel
  rcases Option.map_eq_some_iff.mp hrun with ⟨s, hs, hevictions⟩
  refine ⟨s, Machine.Reachable.of_runFrom Relay.starts_fresh hs, ?_⟩
  intro hown
  have hmem : (0, 2) ∈ s.evictions := by
    rw [hevictions]
    exact List.mem_singleton_self _
  exact absurd (hown (0, 2) hmem) (by decide)

end P2pShare
