import P2pShare.SessionClose

/-!
# The sender's success

`send_file` returns `Ok` only when `Complete` has been sent, so that its success
is never ahead of that of the receiver, however the session ends.
-/

namespace P2pShare

open TransitionMachine

namespace Network

variable {Sender Loop : Type}

/-- `Complete` has been sent, and every chunk was accepted, those of this
transfer once each. -/
structure Agreed (kind : NetworkKind Sender Loop) (setting : NetworkSetting)
    (s : Network Sender Loop) : Prop where
  completed : s.receiver.Completed kind.loop
  all : setting.accepted s.delivered = setting.allChunks
  once : s.delivered.Nodup

section Laws

variable {kind : NetworkKind Sender Loop} {counter : Sender → Option ℕ}
  {setting : NetworkSetting} {s t : Network Sender Loop}

/-- Whoever comes to have sent `Complete` has every chunk by then. -/
theorem all_next (hlaws : kind.Laws setting) (hsound : Sound kind setting s)
    (hcounted : Counted kind counter setting t)
    (hall : s.receiver.Completed kind.loop →
      setting.accepted s.delivered = setting.allChunks)
    {event : NetworkEvent} (hnext : next kind setting s event = some t)
    (hcompleted : t.receiver.Completed kind.loop) :
    setting.accepted t.delivered = setting.allChunks := by
  cases moves_of_next hnext with
  | sends _ _ =>
      rw [emit_receiver] at hcompleted
      rw [emit_delivered]
      exact hall hcompleted
  | hears _ _ =>
      rw [emit_receiver] at hcompleted
      rw [emit_delivered]
      exact hall hcompleted
  | proceeds _ hproceed =>
      obtain ⟨_, hnot, _⟩ | ⟨_, _, hcomplete, _⟩ | ⟨hbefore, _⟩ :=
        Receiver.completed_proceed hlaws.loop hsound.receiver hproceed
      · exact absurd hcompleted hnot
      · apply hcounted.all
        unfold receiverMoves
        rw [hcomplete]
        exact List.mem_append_right _ (List.mem_singleton_self _)
      · apply Finset.Subset.antisymm hcounted.inside
        rw [← hall hbefore]
        intro index hindex
        unfold NetworkSetting.accepted receiverMoves at *
        rw [List.toFinset_append, ← Finset.union_assoc]
        exact Finset.mem_union_left _ hindex
  | receives _ hreceived =>
      exact absurd hcompleted (Receiver.not_completed_received hreceived).2
  | looksUp hlookup =>
      exact absurd hcompleted (Receiver.not_completed_lookup hlookup).2
  | reads hloop _ hreceive =>
      have hreceiver := hsound.receiver
      rw [hloop] at hreceiver
      exact absurd hcompleted
        (Receiver.not_completed_receive hlaws.loop hreceiver.1 hreceive)
  | readsCtrl hloop hstream _ => exact (hsound.no_readsCtrl hloop hstream).elim
  | corrupts _ _ => exact hall hcompleted

theorem agreed_of_completed (hlaws : kind.Laws setting)
    (hcount : CountLaws kind)
    (hcounter : CounterLaws kind.sender kind.awaiting setting.manifest counter)
    (hinside : setting.haveChunks ⊆ setting.allChunks)
    (hreach : (machine kind setting).Reachable s)
    (hcompleted : s.receiver.Completed kind.loop) : Agreed kind setting s := by
  have hboth : (machine kind setting).Reachable s ∧
      (s.receiver.Completed kind.loop →
        setting.accepted s.delivered = setting.allChunks) := by
    apply hreach.invariant
    · intro s₀ hstart
      refine ⟨Machine.Reachable.of_start hstart, ?_⟩
      intro hbefore
      have hstarts : Starts kind s₀ := hstart
      rw [hstarts.receiver] at hbefore
      exact hbefore.elim
    · rintro u event v ⟨hbefore, hall⟩ hnext
      have hafter := hbefore.step hnext
      exact ⟨hafter, all_next hlaws (sound_of_reachable hlaws hbefore)
        (counted_of_reachable hlaws hcount hcounter hinside hafter) hall hnext⟩
  exact ⟨hcompleted, hboth.2 hcompleted,
    (sound_of_reachable hlaws hreach).delivered_nodup⟩

theorem agreed_of_sawComplete (hlaws : kind.Laws setting)
    (hcount : CountLaws kind)
    (hcounter : CounterLaws kind.sender kind.awaiting setting.manifest counter)
    (hinside : setting.haveChunks ⊆ setting.allChunks)
    (hreach : (machine kind setting).Reachable s)
    (hsaw : kind.sender.sawComplete s.sender) : Agreed kind setting s := by
  apply agreed_of_completed hlaws hcount hcounter hinside hreach
  by_contra hnot
  have hended := ended_of_reachable hlaws hcounter hreach
  exact (hended.before hnot).2 hsaw

/-- A receiver that has returned keeps what it has. -/
theorem keeps_of_returned {books : Books} {event : NetworkEvent}
    (hreturned : s.receiver = .returned books)
    (hnext : next kind setting s event = some t) :
    t.receiver = s.receiver ∧ t.delivered = s.delivered := by
  cases moves_of_next hnext with
  | sends _ _ => exact ⟨emit_receiver _ _, emit_delivered _ _⟩
  | hears _ _ => exact ⟨emit_receiver _ _, emit_delivered _ _⟩
  | proceeds _ hproceed =>
      rw [hreturned] at hproceed
      contradiction
  | receives _ hreceived =>
      rw [hreturned] at hreceived
      contradiction
  | looksUp hlookup =>
      rw [hreturned] at hlookup
      contradiction
  | reads hloop _ _ =>
      rw [hreturned] at hloop
      contradiction
  | readsCtrl hloop _ _ =>
      rw [hreturned] at hloop
      contradiction
  | corrupts _ _ => exact ⟨rfl, rfl⟩

theorem Agreed.of_same (hagreed : Agreed kind setting s)
    (hreceiver : t.receiver = s.receiver)
    (hdelivered : t.delivered = s.delivered) : Agreed kind setting t where
  completed := by
    rw [hreceiver]
    exact hagreed.completed
  all := by
    rw [hdelivered]
    exact hagreed.all
  once := by
    rw [hdelivered]
    exact hagreed.once

end Laws

end Network

theorem Network.direct_agreed {setting : NetworkSetting}
    (hhonest : Honest setting) {s : DirectState}
    (hreach : (machine directNetwork setting).Reachable s)
    (hcompleted : s.receiver.Completed directNetwork.loop) :
    Agreed directNetwork setting s :=
  agreed_of_completed (directNetwork_laws setting) directCount_laws
    (directCounter_laws setting.manifest) hhonest.inside hreach hcompleted

namespace ClosingSession

variable {setting : NetworkSetting} {s t : ClosingSession}
  {event : ClosingEvent}

/-- The end of a session takes nothing from the receiver. -/
theorem keeps_of_received (hreceived : s.ReceivedOk)
    (hnext : next setting s event = some t) :
    t.net.receiver = s.net.receiver ∧ t.net.delivered = s.net.delivered := by
  obtain ⟨books, hreturned⟩ := hreceived
  cases event with
  | network event =>
      simp only [next] at hnext
      split at hnext
      next =>
        obtain ⟨net, hnet, rfl⟩ := Option.map_eq_some_iff.mp hnext
        exact Network.keeps_of_returned hreturned hnet
      next => contradiction
  | close kept =>
      obtain ⟨_, _, _, rfl⟩ := next_close hnext
      exact ⟨rfl, rfl⟩
  | writeFails error =>
      simp only [next] at hnext
      split at hnext
      next =>
        cases hnext
        exact ⟨rfl, rfl⟩
      next => contradiction
  | readFails =>
      simp only [next] at hnext
      split at hnext
      next =>
        obtain ⟨sender, _, rfl⟩ := Option.map_eq_some_iff.mp hnext
        exact ⟨rfl, rfl⟩
      next => contradiction

/-- A session is dropped by a receiver that has every chunk. -/
theorem agreed_of_closed (hhonest : Honest setting)
    (hreach : (machine setting).Reachable s) :
    Sound setting s ∧
      (s.closed = true → Network.Agreed directNetwork setting s.net) := by
  apply hreach.invariant
  · intro s₀ hstart
    have hstarts : Starts s₀ := hstart
    refine ⟨sound_of_starts hstarts, ?_⟩
    intro hclosed
    rw [hstarts.closed] at hclosed
    contradiction
  · rintro u event v ⟨hsound, hagreed⟩ hnext
    have hnext : next setting u event = some v := hnext
    refine ⟨sound_next hsound hnext, ?_⟩
    intro hclosed
    obtain hbefore | ⟨kept, rfl⟩ := (closed_next hnext).2 hclosed
    · have hreceived := (hsound.after hbefore).returned
      obtain ⟨hreceiver, hdelivered⟩ := keeps_of_received hreceived hnext
      exact (hagreed hbefore).of_same hreceiver hdelivered
    · obtain ⟨hreceived, hopen, _⟩ := next_close hnext
      obtain ⟨hreceiver, hdelivered⟩ := keeps_of_received hreceived hnext
      have hcompleted : u.net.receiver.Completed directNetwork.loop := by
        obtain ⟨books, hreturned⟩ := hreceived
        rw [hreturned]
        exact True.intro
      exact (Network.direct_agreed hhonest (hsound.before hopen)
        hcompleted).of_same hreceiver hdelivered

end ClosingSession

/-- In every run of either kind, and of a session that is dropped with any
reports still under way, a sender that has returned `Ok` leaves a receiver that
has sent `Complete` and accepted every chunk, each of this transfer once. -/
theorem sender_success_means_receiver_success {setting : NetworkSetting}
    (hhonest : Honest setting) :
    (∀ s, (Network.machine directNetwork setting).Reachable s →
      directNetwork.sender.returnedOk s.sender →
      Network.Agreed directNetwork setting s) ∧
    (∀ s, (Network.machine relayNetwork setting).Reachable s →
      relayNetwork.sender.returnedOk s.sender →
      Network.Agreed relayNetwork setting s) ∧
    ∀ s, (ClosingSession.machine setting).Reachable s →
      s.net.sender.ReturnedOk →
      Network.Agreed directNetwork setting s.net := by
  have hdirect : ∀ s, (Network.machine directNetwork setting).Reachable s →
      directNetwork.sender.returnedOk s.sender →
      Network.Agreed directNetwork setting s := by
    intro s hreach hreturned
    have hlaws := directNetwork_laws setting
    exact Network.agreed_of_sawComplete hlaws directCount_laws
      (directCounter_laws setting.manifest) hhonest.inside hreach
      (hlaws.sender.sawComplete_of_returnedOk hreturned)
  refine ⟨hdirect, ?_, ?_⟩
  · intro s hreach hreturned
    have hlaws := relayNetwork_laws setting
    exact Network.agreed_of_sawComplete hlaws relayCount_laws
      (relayCounter_laws setting.manifest) hhonest.inside hreach
      (hlaws.sender.sawComplete_of_returnedOk hreturned)
  · intro s hreach hreturned
    obtain ⟨hsound, hagreed⟩ :=
      ClosingSession.agreed_of_closed hhonest hreach
    cases hclosed : s.closed with
    | true => exact hagreed hclosed
    | false => exact hdirect s.net (hsound.before hclosed) hreturned

/-- The sender of a relay transfer returns while the receiver has yet to delete
its state. -/
def senderFirst : Option (Network RelaySender RelayLoop) :=
  (Network.machine relayNetwork fifoSetting).runFrom
    (Network.fresh relayNetwork)
    ([.sender .proceed, .receiverHears, .receiverLooksUp] ++
      List.replicate 6 .receiverProceeds ++
      [.senderHears, .sender .proceed, .sender (.read [1, 2, 3]),
        .sender .proceed, .receiverReads] ++
      List.replicate 4 .receiverProceeds ++
      [.senderHears, .senderHears, .sender .proceed])

theorem sender_success_means_receiver_success_sample :
    (∃ s, (Network.machine relayNetwork fifoSetting).Reachable s ∧
      relayNetwork.sender.returnedOk s.sender ∧
      Network.Agreed relayNetwork fifoSetting s) ∧
    ∃ s, (ClosingSession.machine fifoSetting).Reachable s ∧
      s.closed = true ∧ s.net.sender.ReturnedOk ∧
      Network.Agreed directNetwork fifoSetting s.net := by
  have hhonest : Honest fifoSetting := Honest.fresh (by decide +kernel)
  obtain ⟨_, hrelay, hclosing⟩ :=
    sender_success_means_receiver_success hhonest
  have hfirst : senderFirst.map (fun s => s.sender) = some (.returned 3) := by
    decide +kernel
  have hlast : patientClose.map (fun s => (s.net.sender, s.closed)) =
      some (.returned 3, true) := by
    decide +kernel
  obtain ⟨s, hrun, hsender⟩ := Option.map_eq_some_iff.mp hfirst
  obtain ⟨t, hrun', hvalues⟩ := Option.map_eq_some_iff.mp hlast
  rw [Prod.mk.injEq] at hvalues
  have hreach := Machine.Reachable.of_runFrom
    (Network.starts_fresh relayNetwork) hrun
  have hreach' := Machine.Reachable.of_runFrom
    ClosingSession.starts_fresh hrun'
  have hreturned : relayNetwork.sender.returnedOk s.sender := ⟨3, hsender⟩
  exact ⟨⟨s, hreach, hreturned, hrelay s hreach hreturned⟩,
    t, hreach', hvalues.2, ⟨3, hvalues.1⟩, hclosing t hreach' ⟨3, hvalues.1⟩⟩

end P2pShare
