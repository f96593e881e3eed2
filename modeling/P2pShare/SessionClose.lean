import P2pShare.DirectEnding

/-!
# The end of a direct session

`receive_file` returns once `Complete` is in the buffer of the connection, and
its caller drops the session, which closes the connection at once.  The close
discards the reports that have not reached the sender by then, and both sides
agree on the outcome exactly when there are none.
-/

namespace P2pShare

open ByteStream PathResolution TransitionMachine

/-! ## The connection and its close -/

namespace DirectSender

/-- The next step opens a stream or writes to one. -/
def writes : DirectSender → Bool
  | openBi | openUni _ => true
  | transfer state =>
      match state.pc with
      | .joining (some _) _ | .resend _ _ _ => true
      | _ => false
  | _ => false

theorem Emptied.not_writes {sender : DirectSender}
    (hemptied : sender.Emptied) : sender.writes = false := by
  cases sender with
  | transfer state =>
      obtain ⟨_, _, hpc | hpc | hpc | hpc⟩ := hemptied
      · simp [writes, hpc]
      · simp [writes, hpc]
      · simp [writes, hpc]
      · simp [writes, hpc]
  | returned bytesDone => rfl
  | failed error => rfl
  | openBi => exact hemptied.elim
  | awaitReply => exact hemptied.elim
  | openUni skip => exact hemptied.elim

theorem Emptied.read_eq_none {sender : DirectSender} {manifest : FileManifest}
    {file : Bytes} (hemptied : sender.Emptied) :
    sender.read manifest file = none := by
  cases sender with
  | transfer state =>
      have hreading : state.reading? = none := Transfer.Emptied.reading hemptied
      exact Option.map_eq_none_iff.mpr hreading
  | returned bytesDone => rfl
  | failed error => rfl
  | openBi => rfl
  | awaitReply => rfl
  | openUni skip => rfl

end DirectSender

def NetworkEvent.writes (sender : DirectSender) : NetworkEvent → Bool
  | .sender .proceed => sender.writes
  | _ => false

/-- `closed` is set once the caller of `receive_file` has dropped the session. -/
structure ClosingSession where
  net : DirectState
  closed : Bool

/-- Of the reports the sender has not taken, `kept` have wholly reached it when
the session is dropped, and can still be taken; the others are discarded.  From
then on the sender's writes fail, and its reads where nothing is left to read. -/
inductive ClosingEvent where
  | network (event : NetworkEvent)
  | close (kept : ℕ)
  | writeFails (error : Error)
  | readFails

namespace ClosingSession

variable (setting : NetworkSetting)

def next (s : ClosingSession) : ClosingEvent → Option ClosingSession
  | .network event =>
      if event.lossless && !(s.closed && event.writes s.net.sender) then
        (Network.next directNetwork setting s.net event).map fun net =>
          { s with net }
      else none
  | .close kept =>
      match s.net.receiver with
      | .returned _ =>
          if s.closed = false ∧ kept ≤ s.net.reports.length then
            some ⟨{ s.net with reports := s.net.reports.take kept }, true⟩
          else none
      | _ => none
  | .writeFails error =>
      if s.closed && s.net.sender.writes then
        some { s with net := { s.net with sender := .failed error } }
      else none
  | .readFails =>
      if s.closed = true ∧ s.net.reports = [] then
        (s.net.sender.received setting.manifest (.error .quicStream)).map
          fun sender => { s with net := { s.net with sender } }
      else none

structure Starts (s : ClosingSession) : Prop where
  net : Network.Starts directNetwork s.net
  closed : s.closed = false

def machine : Machine ClosingSession ClosingEvent where
  start := Starts
  next := next setting

/-- `receive_file` has returned `Ok`. -/
def ReceivedOk (s : ClosingSession) : Prop :=
  ∃ books, s.net.receiver = .returned books

/-- The sender has seen `Complete` or can still take it. -/
def Promised (s : ClosingSession) : Prop :=
  s.net.sender.SawComplete ∨ .complete ∈ s.net.reports

/-- The steps left once the receiver has returned. -/
def stepsLeft (s : ClosingSession) : ℕ :=
  (if s.closed then 0 else 1) + s.net.reports.length + s.net.sender.stepsLeft

structure Sound (s : ClosingSession) : Prop where
  before : s.closed = false →
    (Network.machine directNetwork setting).Reachable s.net
  after : s.closed = true → s.net.Finale

variable {setting} {s t : ClosingSession} {event : ClosingEvent}

theorem Sound.finale (hsound : Sound setting s) (hreceived : s.ReceivedOk) :
    s.net.Finale := by
  cases hclosed : s.closed with
  | true => exact hsound.after hclosed
  | false =>
      obtain ⟨books, hreturned⟩ := hreceived
      exact Network.finale_of_reachable (hsound.before hclosed) hreturned

/-- A receiver that has returned takes no step. -/
theorem network_finale {net : DirectState} {event : NetworkEvent}
    (hfinale : s.net.Finale) (hlossless : event.lossless = true)
    (hnext : Network.next directNetwork setting s.net event = some net) :
    (∃ output, s.net.sender.proceed setting.manifest =
        some (net.sender, output) ∧ net.receiver = s.net.receiver ∧
        net.reports = s.net.reports) ∨
      ∃ message rest, s.net.reports = message :: rest ∧
        s.net.sender.received setting.manifest (.ok message) =
          some net.sender ∧
        net.receiver = s.net.receiver ∧ net.reports = rest := by
  obtain ⟨books, hreturned⟩ := hfinale.returned
  cases event with
  | sender event =>
      simp only [Network.next] at hnext
      split at hnext
      next hregular =>
        obtain ⟨⟨sender, output⟩, hstep, rfl⟩ :=
          Option.map_eq_some_iff.mp hnext
        rw [Network.emit_sender, Network.emit_receiver, Network.emit_reports]
        cases event with
        | proceed => exact Or.inl ⟨output, hstep, rfl, rfl⟩
        | read file =>
            have hread : s.net.sender.read setting.manifest file =
                some (sender, output) := hstep
            rw [hfinale.sender.read_eq_none] at hread
            contradiction
        | ctrlProceed => cases hstep
        | ctrlRead file => cases hstep
        | received result => cases hregular
        | fail error effect => cases hregular
      next => contradiction
  | senderHears =>
      simp only [Network.next] at hnext
      split at hnext
      next message rest hreports =>
        obtain ⟨⟨sender, output⟩, hstep, rfl⟩ :=
          Option.map_eq_some_iff.mp hnext
        obtain ⟨sender', hreceived, hresult⟩ :=
          Option.map_eq_some_iff.mp hstep
        rw [Prod.mk.injEq] at hresult
        obtain ⟨rfl, rfl⟩ := hresult
        exact Or.inr ⟨message, rest, hreports, hreceived, rfl, rfl⟩
      next => contradiction
  | receiverProceeds =>
      simp [Network.next, Network.blocked, hreturned, Receiver.proceed] at hnext
  | receiverHears =>
      simp only [Network.next, hreturned, Receiver.received] at hnext
      split at hnext
      · contradiction
      · contradiction
      · contradiction
  | receiverLooksUp =>
      simp [Network.next, hreturned, Receiver.lookup] at hnext
  | receiverReads => simp [Network.next, hreturned] at hnext
  | corrupt stream position subs => contradiction

/-- How a step of the sender changes it when nothing is left to send. -/
theorem proceed_finale {sender : DirectSender} {output : SenderOutput}
    (hemptied : s.net.sender.Emptied)
    (hproceed : s.net.sender.proceed setting.manifest = some (sender, output)) :
    sender.Emptied ∧ (sender.SawComplete ↔ s.net.sender.SawComplete) ∧
      (∀ error, sender ≠ .failed error) ∧
      sender.stepsLeft < s.net.sender.stepsLeft := by
  cases hsender : s.net.sender with
  | transfer state =>
      rw [hsender] at hproceed hemptied
      simp only [DirectSender.proceed] at hproceed
      split at hproceed
      next hdone =>
        cases hproceed
        simp [DirectSender.Emptied, DirectSender.SawComplete,
          DirectSender.stepsLeft, Transfer.stepsLeft, hdone.1, hdone.2]
      next =>
        obtain ⟨⟨state', output'⟩, hstep, hresult⟩ :=
          Option.map_eq_some_iff.mp hproceed
        cases hresult
        obtain ⟨hafter, hdone, _, hless⟩ :=
          Transfer.Emptied.proceed hemptied hstep
        refine ⟨hafter, ?_, by simp, hless⟩
        simp only [DirectSender.SawComplete, hdone]
  | returned bytesDone =>
      rw [hsender] at hproceed
      contradiction
  | failed error =>
      rw [hsender] at hproceed
      contradiction
  | openBi =>
      rw [hsender] at hemptied
      exact hemptied.elim
  | awaitReply =>
      rw [hsender] at hemptied
      exact hemptied.elim
  | openUni skip =>
      rw [hsender] at hemptied
      exact hemptied.elim

theorem received_finale {sender : DirectSender} {message : ControlMessage}
    (hemptied : s.net.sender.Emptied)
    (hmessage : message = .complete ∨ ∃ bytes, message = .progress bytes)
    (hreceived : s.net.sender.received setting.manifest (.ok message) =
      some sender) :
    sender.Emptied ∧ ¬ s.net.sender.SawComplete ∧
      (sender.SawComplete ↔ message = .complete) ∧
      (∀ error, sender ≠ .failed error) ∧
      sender.stepsLeft = s.net.sender.stepsLeft := by
  cases hsender : s.net.sender with
  | transfer state =>
      rw [hsender] at hreceived hemptied
      simp only [DirectSender.received] at hreceived
      split at hreceived
      next => contradiction
      next hdone =>
        obtain rfl | ⟨bytes, rfl⟩ := hmessage
        · cases hreceived
          exact ⟨hemptied, hdone, by simp [DirectSender.SawComplete], by simp,
            rfl⟩
        · cases hreceived
          refine ⟨hemptied, hdone, ?_, by simp, rfl⟩
          simp only [DirectSender.SawComplete, reduceCtorEq, iff_false]
          exact hdone
  | returned bytesDone =>
      rw [hsender] at hreceived
      contradiction
  | failed error =>
      rw [hsender] at hreceived
      contradiction
  | openBi =>
      rw [hsender] at hemptied
      exact hemptied.elim
  | awaitReply =>
      rw [hsender] at hemptied
      exact hemptied.elim
  | openUni skip =>
      rw [hsender] at hemptied
      exact hemptied.elim

theorem finale_network {net : DirectState} {event : NetworkEvent}
    (hfinale : s.net.Finale) (hlossless : event.lossless = true)
    (hnext : Network.next directNetwork setting s.net event = some net) :
    net.Finale ∧
      (Promised { s with net } ↔ s.Promised) ∧
      net.reports.length + net.sender.stepsLeft <
        s.net.reports.length + s.net.sender.stepsLeft := by
  obtain ⟨books, hreturned⟩ := hfinale.returned
  obtain ⟨output, hproceed, hreceiver, hreports⟩ |
      ⟨message, rest, hqueue, hreceived, hreceiver, hreports⟩ :=
    network_finale hfinale hlossless hnext
  · obtain ⟨hemptied, hsaw, hok, hless⟩ :=
      proceed_finale hfinale.sender hproceed
    refine ⟨⟨⟨books, ?_⟩, hemptied, ?_, ?_⟩, ?_, ?_⟩
    · rw [hreceiver]
      exact hreturned
    · rw [hreports]
      exact hfinale.reports
    · intro error hfailed
      exact absurd hfailed (hok error)
    · unfold Promised
      dsimp only
      rw [hsaw, hreports]
    · rw [hreports]
      omega
  · have hmessage := hfinale.reports message (by
      rw [hqueue]
      exact List.mem_cons_self)
    obtain ⟨hemptied, hquiet, hlast, hok, hsame⟩ :=
      received_finale hfinale.sender hmessage hreceived
    refine ⟨⟨⟨books, ?_⟩, hemptied, ?_, ?_⟩, ?_, ?_⟩
    · rw [hreceiver]
      exact hreturned
    · intro other hother
      rw [hreports] at hother
      apply hfinale.reports
      rw [hqueue]
      exact List.mem_cons_of_mem message hother
    · intro error hfailed
      exact absurd hfailed (hok error)
    · unfold Promised
      dsimp only
      rw [hlast, hreports, hqueue, List.mem_cons]
      constructor
      · rintro (hcomplete | hlater)
        · exact Or.inr (Or.inl hcomplete.symm)
        · exact Or.inr (Or.inr hlater)
      · rintro (hbefore | hcomplete | hlater)
        · exact absurd hbefore hquiet
        · exact Or.inl hcomplete.symm
        · exact Or.inr hlater
    · rw [hreports, hqueue, hsame, List.length_cons]
      omega

theorem next_close {kept : ℕ} (hnext : next setting s (.close kept) = some t) :
    s.ReceivedOk ∧ s.closed = false ∧ kept ≤ s.net.reports.length ∧
      t = ⟨{ s.net with reports := s.net.reports.take kept }, true⟩ := by
  simp only [next] at hnext
  split at hnext
  next books hreturned =>
    split at hnext
    next hopen =>
      cases hnext
      exact ⟨⟨books, hreturned⟩, hopen.1, hopen.2, rfl⟩
    next => contradiction
  next => contradiction

theorem Finale.close {net : DirectState} {kept : ℕ} (hfinale : net.Finale)
    (hnot : ∀ error, net.sender ≠ .failed error) :
    ({ net with reports := net.reports.take kept } : DirectState).Finale where
  returned := hfinale.returned
  sender := hfinale.sender
  reports := fun message hmessage =>
    hfinale.reports message (List.mem_of_mem_take hmessage)
  failed := fun error hfailed => absurd hfailed (hnot error)

/-- A sender that fails to read has been promised nothing. -/
theorem readFails_finale {sender : DirectSender} {error : Error}
    (hfinale : s.net.Finale) (hempty : s.net.reports = [])
    (hreceived : s.net.sender.received setting.manifest (.error error) =
      some sender) :
    sender = .failed error ∧ ¬ s.Promised ∧
      sender.stepsLeft < s.net.sender.stepsLeft := by
  have hemptied := hfinale.sender
  unfold Promised
  rw [hempty]
  cases hsender : s.net.sender with
  | transfer state =>
      rw [hsender] at hreceived
      simp only [DirectSender.received] at hreceived
      split at hreceived
      next => contradiction
      next hdone =>
        cases hreceived
        refine ⟨rfl, ?_, ?_⟩
        · rintro (hsaw | hcomplete)
          · exact hdone hsaw
          · cases hcomplete
        · simp only [DirectSender.stepsLeft, Transfer.stepsLeft]
          split
          · exact Nat.zero_lt_one
          · exact Nat.zero_lt_two
          · exact Nat.succ_pos 2
  | returned bytesDone =>
      rw [hsender] at hreceived
      contradiction
  | failed error =>
      rw [hsender] at hreceived
      contradiction
  | openBi =>
      rw [hsender] at hemptied
      exact hemptied.elim
  | awaitReply =>
      rw [hsender] at hemptied
      exact hemptied.elim
  | openUni skip =>
      rw [hsender] at hemptied
      exact hemptied.elim

/-- A close that discards a report discards `Complete`. -/
theorem promised_close_iff {kept : ℕ} (hends : s.net.Ends)
    (hreceived : s.ReceivedOk) (hkept : kept ≤ s.net.reports.length) :
    Promised ⟨{ s.net with reports := s.net.reports.take kept }, true⟩ ↔
      kept = s.net.reports.length := by
  have hsent : s.net.receiver.Completed directNetwork.loop := by
    obtain ⟨books, hreturned⟩ := hreceived
    rw [hreturned]
    exact True.intro
  unfold Promised
  dsimp only
  obtain ⟨hempty, hsaw⟩ | ⟨hquiet, before, hbefore, hnot⟩ :=
    hends.ended.after hsent
  · rw [hempty, List.length_nil] at hkept ⊢
    exact iff_of_true (Or.inl hsaw) (Nat.le_zero.mp hkept)
  · rw [hbefore, List.length_append, List.length_singleton] at hkept ⊢
    constructor
    · rintro (hsaw | hcomplete)
      · exact absurd hsaw hquiet
      · by_contra hne
        have hle : kept ≤ before.length := by omega
        rw [List.take_append_of_le_length hle] at hcomplete
        exact hnot (List.mem_of_mem_take hcomplete)
    · rintro rfl
      rw [List.take_of_length_le (by simp)]
      exact Or.inr (List.mem_append_right before List.mem_cons_self)

theorem sound_of_starts (hstart : Starts s) : Sound setting s where
  before := fun _ => Machine.Reachable.of_start hstart.net
  after := by
    intro hclosed
    rw [hstart.closed] at hclosed
    contradiction

/-- What a step does from when the receiver has returned. -/
theorem finale_next (hfinale : s.net.Finale)
    (hsound : Sound setting s) (hnext : next setting s event = some t) :
    t.net.Finale ∧ t.stepsLeft < s.stepsLeft ∧
      (s.closed = true → (t.Promised ↔ s.Promised)) := by
  cases event with
  | network event =>
      simp only [next] at hnext
      split at hnext
      next hallowed =>
        obtain ⟨net, hnet, rfl⟩ := Option.map_eq_some_iff.mp hnext
        rw [Bool.and_eq_true] at hallowed
        obtain ⟨hafter, hpromised, hless⟩ :=
          finale_network hfinale hallowed.1 hnet
        refine ⟨hafter, ?_, fun _ => hpromised⟩
        unfold stepsLeft
        dsimp only
        omega
      next => contradiction
  | close kept =>
      obtain ⟨_, hopen, hkept, rfl⟩ := next_close hnext
      refine ⟨?_, ?_, ?_⟩
      · apply Finale.close hfinale
        intro error hfailed
        have horderly :=
          (Network.settled_of_reachable (hsound.before hopen)).1.orderly
        rw [hfailed] at horderly
        exact horderly.elim
      · have hlength : (s.net.reports.take kept).length ≤
            s.net.reports.length := List.length_take_le' _ _
        simp only [stepsLeft, hopen, Bool.false_eq_true, if_false, if_true]
        omega
      · intro hclosed
        rw [hopen] at hclosed
        contradiction
  | writeFails error =>
      simp only [next, hfinale.sender.not_writes, Bool.and_false,
        Bool.false_eq_true, if_false] at hnext
      contradiction
  | readFails =>
      simp only [next] at hnext
      split at hnext
      next hallowed =>
        obtain ⟨sender, hreceived, rfl⟩ := Option.map_eq_some_iff.mp hnext
        obtain ⟨hfailed, hunpromised, hless⟩ :=
          readFails_finale hfinale hallowed.2 hreceived
        refine ⟨⟨hfinale.returned, ?_, hfinale.reports, ?_⟩, ?_, ?_⟩
        · dsimp only
          rw [hfailed]
          exact True.intro
        · exact fun _ _ => hallowed.2
        · unfold stepsLeft
          dsimp only
          omega
        · intro _
          apply iff_of_false _ hunpromised
          unfold Promised
          dsimp only
          rw [hfailed, hallowed.2]
          rintro (hsaw | hcomplete)
          · exact hsaw
          · cases hcomplete
      next => contradiction

/-- A session stays dropped, and only a close drops it. -/
theorem closed_next (hnext : next setting s event = some t) :
    (s.closed = true → t.closed = true ∧ ∀ kept, event ≠ .close kept) ∧
      (t.closed = true → s.closed = true ∨ ∃ kept, event = .close kept) := by
  cases event with
  | network event =>
      simp only [next] at hnext
      split at hnext
      next =>
        obtain ⟨net, _, rfl⟩ := Option.map_eq_some_iff.mp hnext
        exact ⟨fun hclosed => ⟨hclosed, by simp⟩, Or.inl⟩
      next => contradiction
  | close kept =>
      obtain ⟨_, hopen, _, rfl⟩ := next_close hnext
      rw [hopen]
      exact ⟨by simp, fun _ => Or.inr ⟨kept, rfl⟩⟩
  | writeFails error =>
      simp only [next] at hnext
      split at hnext
      next =>
        cases hnext
        exact ⟨fun hclosed => ⟨hclosed, by simp⟩, Or.inl⟩
      next => contradiction
  | readFails =>
      simp only [next] at hnext
      split at hnext
      next =>
        obtain ⟨sender, _, rfl⟩ := Option.map_eq_some_iff.mp hnext
        exact ⟨fun hclosed => ⟨hclosed, by simp⟩, Or.inl⟩
      next => contradiction

theorem sound_next (hsound : Sound setting s)
    (hnext : next setting s event = some t) : Sound setting t := by
  cases hclosed : s.closed with
  | true =>
      have hafter := (finale_next (hsound.after hclosed) hsound hnext).1
      have hstays := ((closed_next hnext).1 hclosed).1
      constructor
      · intro hopen
        rw [hstays] at hopen
        contradiction
      · exact fun _ => hafter
  | false =>
      cases event with
      | network event =>
          simp only [next] at hnext
          split at hnext
          next =>
            obtain ⟨net, hnet, rfl⟩ := Option.map_eq_some_iff.mp hnext
            constructor
            · exact fun _ => (hsound.before hclosed).step hnet
            · intro hafter
              dsimp only at hafter
              rw [hclosed] at hafter
              contradiction
          next => contradiction
      | close kept =>
          have hreceived := (next_close hnext).1
          have hafter := (finale_next (hsound.finale hreceived) hsound hnext).1
          obtain ⟨_, _, _, rfl⟩ := next_close hnext
          constructor
          · intro hopen
            cases hopen
          · exact fun _ => hafter
      | writeFails error =>
          simp [next, hclosed] at hnext
      | readFails =>
          simp [next, hclosed] at hnext

theorem sound_of_reachable (hreach : (machine setting).Reachable s) :
    Sound setting s :=
  hreach.invariant (fun _ hstart => sound_of_starts hstart)
    fun _ _ _ hsound hnext => sound_next hsound hnext

/-! ## The outcome -/

/-- The close, if this is one, discards no report. -/
def KeepsAll (s : ClosingSession) (event : ClosingEvent) : Prop :=
  ∀ kept, event = .close kept → kept = s.net.reports.length

/-- Once the session is dropped, the sender is promised `Complete` exactly if no
report was discarded. -/
theorem promised_iff {history : List (ClosingSession × ClosingEvent)}
    (hexec : (machine setting).Execution history s) :
    (s.closed = false → ∀ entry ∈ history, KeepsAll entry.1 entry.2) ∧
      (s.closed = true →
        (s.Promised ↔ ∀ entry ∈ history, KeepsAll entry.1 entry.2)) := by
  induction hexec with
  | start hstart =>
      refine ⟨fun _ _ hentry => absurd hentry List.not_mem_nil, ?_⟩
      intro hclosed
      have hstarts : Starts _ := hstart
      rw [hstarts.closed] at hclosed
      contradiction
  | @step history u v event hbefore hnext ih =>
      have hsound := sound_of_reachable hbefore.reachable
      have hnext : next setting u event = some v := hnext
      obtain ⟨hstays, hcloses⟩ := closed_next hnext
      rw [List.forall_mem_cons]
      constructor
      · intro hopen
        have hbefore : u.closed = false := by
          by_contra hnot
          have hclosed := (hstays (Bool.eq_true_of_not_eq_false hnot)).1
          rw [hopen] at hclosed
          contradiction
        refine ⟨?_, ih.1 hbefore⟩
        rintro kept rfl
        obtain ⟨_, _, _, rfl⟩ := next_close hnext
        contradiction
      · intro hclosed
        obtain hbefore | ⟨kept, rfl⟩ := hcloses hclosed
        · have hkeeps : KeepsAll u event := fun kept hevent =>
            absurd hevent ((hstays hbefore).2 kept)
          rw [(finale_next (hsound.after hbefore) hsound hnext).2.2 hbefore,
            ih.2 hbefore]
          exact (and_iff_right hkeeps).symm
        · obtain ⟨hreceived, hopen, hkept, rfl⟩ := next_close hnext
          have hends := Network.ends_of_reachable (hsound.before hopen)
          rw [promised_close_iff hends hreceived hkept]
          constructor
          · rintro rfl
            refine ⟨?_, ih.1 hopen⟩
            intro other hother
            cases hother
            rfl
          · intro hall
            exact hall.1 kept rfl

theorem closed_of_halted (hreceived : s.ReceivedOk)
    (hhalted : (machine setting).Halted s) : s.closed = true := by
  by_contra hopen
  obtain ⟨books, hreturned⟩ := hreceived
  have hnone : next setting s (.close 0) = none := hhalted (.close 0)
  simp [next, hreturned, hopen] at hnone

/-- A sender whose transfer is not over can go on. -/
theorem over_of_halted (hfinale : s.net.Finale) (hclosed : s.closed = true)
    (hhalted : (machine setting).Halted s) :
    s.net.sender.ReturnedOk ∨ ∃ error, s.net.sender = .failed error := by
  have hemptied := hfinale.sender
  have hproceed : s.net.sender.proceed setting.manifest = none := by
    have hnone : next setting s (.network (.sender .proceed)) = none :=
      hhalted (.network (.sender .proceed))
    simpa [next, NetworkEvent.lossless, NetworkEvent.writes,
      hemptied.not_writes, Network.next, SenderEvent.regular, directNetwork,
      directSenderKind, DirectSender.step] using hnone
  cases hsender : s.net.sender with
  | transfer state =>
      exfalso
      rw [hsender] at hproceed hemptied
      cases hdone : state.ctrlDone with
      | true =>
          by_cases hpc : state.pc = .finished
          · simp [DirectSender.proceed, hpc, hdone] at hproceed
          · simp only [DirectSender.proceed, hpc, false_and, if_false]
              at hproceed
            exact hpc (Transfer.Emptied.halted hemptied
              (Option.map_eq_none_iff.mp hproceed) hdone)
      | false =>
          cases hreports : s.net.reports with
          | nil =>
              have hnone : next setting s .readFails = none :=
                hhalted .readFails
              simp [next, hclosed, hreports, hsender, DirectSender.received,
                hdone, ctrlMessage] at hnone
          | cons message rest =>
              have hnone : next setting s (.network .senderHears) = none :=
                hhalted (.network .senderHears)
              have hmessage := hfinale.reports message (by
                rw [hreports]
                exact List.mem_cons_self)
              obtain rfl | ⟨bytes, rfl⟩ := hmessage
              · simp [next, NetworkEvent.lossless, NetworkEvent.writes,
                  Network.next, hreports, hsender, directNetwork,
                  directSenderKind, DirectSender.step, DirectSender.received,
                  hdone, ctrlMessage] at hnone
              · simp [next, NetworkEvent.lossless, NetworkEvent.writes,
                  Network.next, hreports, hsender, directNetwork,
                  directSenderKind, DirectSender.step, DirectSender.received,
                  hdone, ctrlMessage] at hnone
  | returned bytesDone => exact Or.inl ⟨bytesDone, rfl⟩
  | failed error => exact Or.inr ⟨error, rfl⟩
  | openBi =>
      rw [hsender] at hemptied
      exact hemptied.elim
  | awaitReply =>
      rw [hsender] at hemptied
      exact hemptied.elim
  | openUni skip =>
      rw [hsender] at hemptied
      exact hemptied.elim

/-- A sender that can do nothing more has returned `Ok` exactly if it was
promised `Complete`. -/
theorem returnedOk_iff_of_halted (hfinale : s.net.Finale)
    (hclosed : s.closed = true) (hhalted : (machine setting).Halted s) :
    s.net.sender.ReturnedOk ↔ s.Promised := by
  constructor
  · rintro ⟨bytesDone, hreturned⟩
    unfold Promised
    rw [hreturned]
    exact Or.inl True.intro
  · intro hpromised
    rcases over_of_halted hfinale hclosed hhalted with hok | ⟨error, hfailed⟩
    · exact hok
    · unfold Promised at hpromised
      rw [hfinale.failed error hfailed, hfailed] at hpromised
      obtain hsaw | hcomplete := hpromised
      · exact hsaw.elim
      · cases hcomplete

end ClosingSession

/-- Once `receive_file` has returned, a bounded number of steps is left.  Where
none is, `send_file` has returned `Ok` or an error, and `Ok` exactly in the
executions in which the close discards no report. -/
theorem sender_returns_with_receiver_iff (setting : NetworkSetting) :
    (∀ s, (ClosingSession.machine setting).Reachable s → s.ReceivedOk →
      ∀ events t, (ClosingSession.machine setting).runFrom s events = some t →
        events.length ≤ s.stepsLeft) ∧
    ∀ history s, (ClosingSession.machine setting).Execution history s →
      s.ReceivedOk → (ClosingSession.machine setting).Halted s →
      (s.net.sender.ReturnedOk ∨ ∃ error, s.net.sender = .failed error) ∧
      (s.net.sender.ReturnedOk ↔
        ∀ entry ∈ history, ClosingSession.KeepsAll entry.1 entry.2) := by
  constructor
  · intro s hreach hreceived events t hrun
    apply Machine.length_le_of_runFrom (P := fun u =>
      ClosingSession.Sound setting u ∧ u.ReceivedOk) hrun
      ⟨ClosingSession.sound_of_reachable hreach, hreceived⟩
    rintro u event v ⟨hsound, hreturned⟩ hnext
    obtain ⟨hfinale, hless, _⟩ := ClosingSession.finale_next
      (hsound.finale hreturned) hsound hnext
    exact ⟨⟨ClosingSession.sound_next hsound hnext, hfinale.returned⟩, hless⟩
  · intro history s hexec hreceived hhalted
    have hsound := ClosingSession.sound_of_reachable hexec.reachable
    have hclosed := ClosingSession.closed_of_halted hreceived hhalted
    refine ⟨ClosingSession.over_of_halted (hsound.after hclosed) hclosed hhalted,
      ?_⟩
    rw [ClosingSession.returnedOk_iff_of_halted (hsound.after hclosed) hclosed
      hhalted]
    exact (ClosingSession.promised_iff hexec).2 hclosed

/-! ## Two ends of one transfer

The only chunk of a file is sent and accepted.  The session is dropped with the
last two reports still in the buffer of the receiver, or after they have
reached the sender. -/

def ClosingSession.fresh : ClosingSession where
  net := Network.fresh directNetwork
  closed := false

theorem ClosingSession.starts_fresh : Starts fresh where
  net := Network.starts_fresh directNetwork
  closed := rfl

def deliveringEvents : List NetworkEvent :=
  [.sender .proceed, .receiverProceeds, .receiverHears, .receiverLooksUp] ++
    List.replicate 5 .receiverProceeds ++
    [.senderHears, .sender .proceed, .sender (.read [1, 2, 3]),
      .sender .proceed, .sender .proceed, .receiverProceeds,
      .receiverReads] ++ List.replicate 7 .receiverProceeds

/-- Nothing happens once the session is dropped and both calls have ended. -/
theorem ClosingSession.halted_of_over {setting : NetworkSetting}
    {s : ClosingSession} (hclosed : s.closed = true) (hreceived : s.ReceivedOk)
    (hover : (∃ bytesDone, s.net.sender = .returned bytesDone) ∨
      ∃ error, s.net.sender = .failed error)
    (hempty : s.net.reports = []) : (machine setting).Halted s := by
  obtain ⟨books, hreturned⟩ := hreceived
  have hfinale : s.net.Finale := by
    constructor
    · exact ⟨books, hreturned⟩
    · obtain ⟨bytesDone, hsender⟩ | ⟨error, hsender⟩ := hover
      · rw [hsender]
        exact True.intro
      · rw [hsender]
        exact True.intro
    · intro message hmessage
      rw [hempty] at hmessage
      cases hmessage
    · exact fun _ _ => hempty
  have hzero : s.stepsLeft = 0 := by
    unfold stepsLeft
    rw [hclosed, hempty]
    obtain ⟨bytesDone, hsender⟩ | ⟨error, hsender⟩ := hover
    · rw [hsender]
      rfl
    · rw [hsender]
      rfl
  intro event
  have hsound : Sound setting s := by
    constructor
    · intro hopen
      rw [hclosed] at hopen
      contradiction
    · exact fun _ => hfinale
  cases hnext : (machine setting).next s event with
  | none => rfl
  | some t =>
      have hless := (finale_next hfinale hsound hnext).2.1
      omega

def patientClose : Option ClosingSession :=
  (ClosingSession.machine fifoSetting).runFrom .fresh
    (deliveringEvents.map .network ++ [.close 2] ++
      List.replicate 2 (.network .senderHears) ++
      List.replicate 3 (.network (.sender .proceed)))

def hastyClose : Option ClosingSession :=
  (ClosingSession.machine fifoSetting).runFrom .fresh
    (deliveringEvents.map .network ++ [.close 0, .readFails])

theorem sender_returns_with_receiver_sample :
    ∃ history s,
      (ClosingSession.machine fifoSetting).Execution history s ∧
        s.ReceivedOk ∧ (ClosingSession.machine fifoSetting).Halted s ∧
        ([] : List ClosingEvent).length ≤ s.stepsLeft ∧
        ∀ entry ∈ history, ClosingSession.KeepsAll entry.1 entry.2 := by
  have hlast : patientClose.map (fun s =>
      (s.net.sender, s.closed, s.net.reports)) =
        some (.returned 3, true, []) := by
    decide +kernel
  obtain ⟨s, hrun, hvalues⟩ := Option.map_eq_some_iff.mp hlast
  simp only [Prod.mk.injEq] at hvalues
  obtain ⟨hsender, hclosed, hempty⟩ := hvalues
  have hreach := Machine.Reachable.of_runFrom
    ClosingSession.starts_fresh hrun
  have hreceived : s.ReceivedOk :=
    ((ClosingSession.sound_of_reachable hreach).after hclosed).returned
  have hhalted : (ClosingSession.machine fifoSetting).Halted s :=
    ClosingSession.halted_of_over hclosed hreceived
      (Or.inl ⟨3, hsender⟩) hempty
  obtain ⟨history, hexec⟩ := hreach.execution
  refine ⟨history, s, hexec, hreceived, hhalted, ?_, ?_⟩
  · exact (sender_returns_with_receiver_iff fifoSetting).1 s hreach hreceived
      [] s rfl
  · exact ((sender_returns_with_receiver_iff fifoSetting).2 history s hexec
      hreceived hhalted).2.mp ⟨3, hsender⟩

/-- The receiver has returned `Ok`, and the sender returns an error. -/
theorem sender_fails_after_receiver :
    ¬ ∀ setting history s,
      (ClosingSession.machine setting).Execution history s →
      s.ReceivedOk → (ClosingSession.machine setting).Halted s →
      s.net.sender.ReturnedOk := by
  intro hclaim
  have hlast : hastyClose.map (fun s =>
      (s.net.sender, s.closed, s.net.reports)) =
        some (.failed .quicStream, true, []) := by
    decide +kernel
  obtain ⟨s, hrun, hvalues⟩ := Option.map_eq_some_iff.mp hlast
  simp only [Prod.mk.injEq] at hvalues
  obtain ⟨hsender, hclosed, hempty⟩ := hvalues
  have hreach := Machine.Reachable.of_runFrom
    ClosingSession.starts_fresh hrun
  have hreceived : s.ReceivedOk :=
    ((ClosingSession.sound_of_reachable hreach).after hclosed).returned
  have hhalted : (ClosingSession.machine fifoSetting).Halted s :=
    ClosingSession.halted_of_over hclosed hreceived
      (Or.inr ⟨.quicStream, hsender⟩) hempty
  obtain ⟨history, hexec⟩ := hreach.execution
  obtain ⟨bytesDone, hreturned⟩ :=
    hclaim fifoSetting history s hexec hreceived hhalted
  rw [hsender] at hreturned
  cases hreturned

end P2pShare
