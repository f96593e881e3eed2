import P2pShare.CopyBalance
import P2pShare.DirectBooks
import P2pShare.RelayBooks

/-!
# The sender's progress counter

`BYTES_DONE` of the sender: the credit for the chunks to skip, and then what the
control loop takes over from the receiver's reports.  The invariant speaks of
both ends and of the reports on their way, and rests on laws that the two kinds
of transfer share.
-/

namespace P2pShare

open ByteStream TransitionMachine

/-! ## Reports on their way -/

/-- The counter once the control loop has taken the message. -/
def doneAfter (total done : ℕ) : ControlMessage → ℕ
  | .progress bytes => bytes
  | .complete => total
  | _ => done

/-- The progress reports before the first `Complete` grow from `low`, and none
exceeds `high`. -/
def Climbs : ℕ → ℕ → List ControlMessage → Prop
  | low, high, [] => low ≤ high
  | low, high, .progress bytes :: rest => low ≤ bytes ∧ Climbs bytes high rest
  | low, high, .complete :: _ => low ≤ high
  | low, high, _ :: rest => Climbs low high rest

namespace Climbs

variable {low high : ℕ} {reports : List ControlMessage}

theorem le (hclimbs : Climbs low high reports) : low ≤ high := by
  induction reports generalizing low with
  | nil => exact hclimbs
  | cons message rest ih =>
      cases message with
      | progress bytes => exact hclimbs.1.trans (ih hclimbs.2)
      | complete => exact hclimbs
      | _ => exact ih hclimbs

theorem raise {higher : ℕ} (hclimbs : Climbs low high reports)
    (hhigher : high ≤ higher) : Climbs low higher reports := by
  induction reports generalizing low with
  | nil => exact hclimbs.trans hhigher
  | cons message rest ih =>
      cases message with
      | progress bytes => exact ⟨hclimbs.1, ih hclimbs.2⟩
      | complete => exact le_trans hclimbs hhigher
      | _ => exact ih hclimbs

/-- A report of all that was accepted comes last. -/
theorem snoc {message : ControlMessage} (hclimbs : Climbs low high reports)
    (hmessage : ∀ bytes, message = .progress bytes → bytes = high) :
    Climbs low high (reports ++ [message]) := by
  induction reports generalizing low with
  | nil =>
      have hle : low ≤ high := hclimbs
      cases message with
      | progress bytes =>
          rw [hmessage bytes rfl]
          exact ⟨hle, Nat.le_refl high⟩
      | complete => exact hle
      | _ => exact hle
  | cons first rest ih =>
      cases first with
      | progress bytes => exact ⟨hclimbs.1, ih hclimbs.2⟩
      | complete => exact hclimbs
      | _ => exact ih hclimbs

/-- The counter moves up to the first report. -/
theorem tail {total : ℕ} {message : ControlMessage}
    (hclimbs : Climbs low high (message :: reports))
    (hmessage : message ≠ .complete) :
    low ≤ doneAfter total low message ∧
      Climbs (doneAfter total low message) high reports := by
  cases message with
  | progress bytes => exact hclimbs
  | complete => exact absurd rfl hmessage
  | _ => exact ⟨Nat.le_refl low, hclimbs⟩

end Climbs

/-! ## The counters of the two senders -/

/-- `none` until the counter was reset and credited for this transfer. -/
def DirectSender.bytesDone? (manifest : FileManifest) : DirectSender → Option ℕ
  | openUni skip => some (skippedBytes manifest skip)
  | transfer state => some state.bytesDone
  | returned bytesDone => some bytesDone
  | openBi | awaitReply | failed _ => none

def RelaySender.bytesDone? (_ : FileManifest) : RelaySender → Option ℕ
  | transfer state => some state.bytesDone
  | returned bytesDone => some bytesDone
  | greet | awaitReply | failed _ => none

/-- What a step of the sender does to the counter. -/
structure CounterLaws {Sender : Type} (kind : SenderKind Sender)
    (awaiting : Sender) (manifest : FileManifest)
    (counter : Sender → Option ℕ) : Prop where
  start_none : counter kind.start = none
  awaiting_none : counter awaiting = none
  replied_iff : ∀ sender,
    kind.replied sender ↔ ∃ done, counter sender = some done
  saw_replied : ∀ sender, kind.sawComplete sender → kind.replied sender
  kept : ∀ {sender event next output},
    (∀ result, event ≠ .received result) → kind.replied next →
    kind.replied sender →
    kind.step manifest sender event = some (next, output) →
    counter next = counter sender ∧
      (kind.sawComplete next ↔ kind.sawComplete sender)
  credit : ∀ {message next output skip},
    replySkip (.ok message) = .ok skip →
    kind.step manifest awaiting (.received (.ok message)) =
      some (next, output) →
    counter next = some (skippedBytes manifest skip) ∧
      ¬ kind.sawComplete next
  heard : ∀ {sender message next output done},
    kind.replied next → counter sender = some done →
    kind.step manifest sender (.received (.ok message)) =
      some (next, output) →
    ¬ kind.sawComplete sender ∧
      counter next = some (doneAfter manifest.totalSize done message) ∧
      (kind.sawComplete next ↔ message = .complete)

namespace DirectSender

variable {manifest : FileManifest} {sender next : DirectSender}
  {event : SenderEvent} {output : SenderOutput}

theorem bytesDone_of_proceed {state after : Transfer}
    (hproceed : state.proceed = some (after, output)) :
    after.bytesDone = state.bytesDone := by
  unfold Transfer.proceed at hproceed
  split at hproceed
  next hpc =>
    split at hproceed <;> cases hproceed
    rfl
  next hpc =>
    split at hproceed <;> cases hproceed
    rfl
  next index plaintext reading hpc =>
    cases hproceed
    rfl
  next => cases hproceed
  next hpc =>
    split at hproceed <;> cases hproceed
    · rfl
    · rfl
  next index plaintext serving hpc =>
    cases hproceed
    rfl
  next hpc =>
    split at hproceed
    · cases hproceed
      rfl
    · split at hproceed <;> cases hproceed
      rfl
  next => cases hproceed
  next => cases hproceed

theorem bytesDone_of_afterRead (state : Transfer) (plaintext : Bytes) :
    (state.afterRead plaintext).1.bytesDone = state.bytesDone ∧
      (state.afterRead plaintext).1.ctrlDone = state.ctrlDone := by
  unfold Transfer.afterRead
  split
  · exact ⟨rfl, rfl⟩
  · exact ⟨rfl, rfl⟩
  · exact ⟨rfl, rfl⟩
  · exact ⟨rfl, rfl⟩

theorem bytesDone_replied_iff (sender : DirectSender) :
    sender.Replied ↔ ∃ done, sender.bytesDone? manifest = some done := by
  cases sender with
  | openBi => simp [Replied, bytesDone?]
  | awaitReply => simp [Replied, bytesDone?]
  | openUni skip => simp [Replied, bytesDone?]
  | transfer state => simp [Replied, bytesDone?]
  | returned bytesDone => simp [Replied, bytesDone?]
  | failed error => simp [Replied, bytesDone?]

theorem failed_of_fail {error : Error} {effect : Bool}
    (hfail : sender.fail manifest error effect = some (next, output)) :
    next = .failed error := by
  unfold fail at hfail
  split at hfail
  · cases hfail
  · cases hfail
  · split at hfail
    · cases hfail
      rfl
    · cases hfail
      rfl

/-- A step that hears nothing keeps the counter, and what it says of the control
loop. -/
theorem bytesDone_kept (hsilent : ∀ result, event ≠ .received result)
    (hnext : next.Replied) (hreplied : sender.Replied)
    (hstep : sender.step manifest event = some (next, output)) :
    next.bytesDone? manifest = sender.bytesDone? manifest ∧
      (next.SawComplete ↔ sender.SawComplete) := by
  cases event with
  | received result => exact absurd rfl (hsilent result)
  | proceed =>
      cases sender with
      | openBi => exact hreplied.elim
      | awaitReply => exact hreplied.elim
      | openUni skip =>
          cases hstep
          exact ⟨rfl, iff_of_false Bool.false_ne_true id⟩
      | transfer state =>
          simp only [step, proceed] at hstep
          split at hstep
          next hdone =>
            cases hstep
            exact ⟨rfl, iff_of_true trivial hdone.2⟩
          next =>
            obtain ⟨⟨after, output'⟩, hproceed, hresult⟩ :=
              Option.map_eq_some_iff.mp hstep
            cases hresult
            obtain ⟨_, _, _, hdone⟩ := Transfer.holds_of_proceed hproceed
            exact ⟨congrArg some (bytesDone_of_proceed hproceed),
              Iff.of_eq (congrArg (· = true) hdone)⟩
      | returned bytesDone => cases hstep
      | failed error => cases hstep
  | read file =>
      cases sender with
      | transfer state =>
          obtain ⟨index, _, hresult⟩ := Option.map_eq_some_iff.mp hstep
          split at hresult
          next =>
            cases hresult
            exact hnext.elim
          next plaintext _ =>
            cases hresult
            obtain ⟨hbytes, hdone⟩ := bytesDone_of_afterRead state plaintext
            exact ⟨congrArg some hbytes,
              Iff.of_eq (congrArg (· = true) hdone)⟩
      | openBi => cases hstep
      | awaitReply => cases hstep
      | openUni skip => cases hstep
      | returned bytesDone => cases hstep
      | failed error => cases hstep
  | ctrlProceed => cases hstep
  | ctrlRead file => cases hstep
  | fail error effect =>
      rw [failed_of_fail hstep] at hnext
      exact hnext.elim

theorem bytesDone_heard {message : ControlMessage} {done : ℕ}
    (hnext : next.Replied) (hdone : sender.bytesDone? manifest = some done)
    (hstep : sender.step manifest (.received (.ok message)) =
      some (next, output)) :
    ¬ sender.SawComplete ∧
      next.bytesDone? manifest =
        some (doneAfter manifest.totalSize done message) ∧
      (next.SawComplete ↔ message = .complete) := by
  obtain ⟨after, hreceived, hresult⟩ := Option.map_eq_some_iff.mp hstep
  cases hresult
  cases sender with
  | openBi => cases hdone
  | awaitReply => cases hdone
  | openUni skip => cases hreceived
  | returned bytesDone => cases hreceived
  | failed error => cases hdone
  | transfer state =>
      simp only [bytesDone?, Option.some.injEq] at hdone
      subst done
      simp only [received] at hreceived
      split at hreceived
      next => cases hreceived
      next hctrl =>
        have hnot : ¬ state.ctrlDone = true := hctrl
        refine ⟨hctrl, ?_⟩
        cases message with
        | complete =>
            cases hreceived
            exact ⟨rfl, iff_of_true rfl rfl⟩
        | error code text =>
            cases hreceived
            exact hnext.elim
        | progress bytes =>
            cases hreceived
            exact ⟨rfl, iff_of_false hnot (by simp)⟩
        | manifest manifest =>
            cases hreceived
            exact ⟨rfl, iff_of_false hnot (by simp)⟩
        | manifestAck =>
            cases hreceived
            exact ⟨rfl, iff_of_false hnot (by simp)⟩
        | resumeRequest chunks =>
            cases hreceived
            exact ⟨rfl, iff_of_false hnot (by simp)⟩
        | chunkNack index =>
            cases hreceived
            exact ⟨rfl, iff_of_false hnot (by simp)⟩

end DirectSender

theorem directCounter_laws (manifest : FileManifest) :
    CounterLaws directSenderKind .awaitReply manifest
      (DirectSender.bytesDone? manifest) where
  start_none := rfl
  awaiting_none := rfl
  replied_iff := DirectSender.bytesDone_replied_iff
  saw_replied := by
    intro sender hsaw
    cases sender with
    | transfer state => trivial
    | returned bytesDone => trivial
    | _ => exact hsaw.elim
  kept := DirectSender.bytesDone_kept
  credit := by
    intro message next output skip hskip hstep
    obtain ⟨after, hreceived, hresult⟩ := Option.map_eq_some_iff.mp hstep
    cases hresult
    simp only [DirectSender.received, hskip, Option.some.injEq] at hreceived
    subst hreceived
    exact ⟨rfl, id⟩
  heard := DirectSender.bytesDone_heard

namespace RelaySender

variable {manifest : FileManifest} {sender next : RelaySender}
  {event : SenderEvent} {output : SenderOutput}

theorem bytesDone_replied_iff (sender : RelaySender) :
    sender.Replied ↔ ∃ done, sender.bytesDone? manifest = some done := by
  cases sender with
  | greet => simp [Replied, bytesDone?]
  | awaitReply => simp [Replied, bytesDone?]
  | transfer state => simp [Replied, bytesDone?]
  | returned bytesDone => simp [Replied, bytesDone?]
  | failed error => simp [Replied, bytesDone?]

theorem failed_of_fail {error : Error} {effect : Bool}
    (hfail : sender.fail manifest error effect = some (next, output)) :
    next = .failed error := by
  unfold fail at hfail
  split at hfail
  · cases hfail
  · cases hfail
  · split at hfail
    · cases hfail
      rfl
    · cases hfail
      rfl

theorem bytesDone_of_afterRead {state : RelayTransfer}
    {update : Worker → RelayTransfer}
    (hupdate : ∀ worker, (update worker).bytesDone = state.bytesDone ∧
      (update worker).ctrlDone = state.ctrlDone)
    {read : Option (Worker × SenderOutput)}
    (hresult : afterRead update read = (next, output)) (hnext : next.Replied) :
    next.bytesDone? manifest = (transfer state).bytesDone? manifest ∧
      (next.SawComplete ↔ (transfer state).SawComplete) := by
  cases read with
  | none =>
      cases hresult
      exact hnext.elim
  | some result =>
      obtain ⟨worker, output'⟩ := result
      cases hresult
      obtain ⟨hbytes, hdone⟩ := hupdate worker
      exact ⟨congrArg some hbytes, Iff.of_eq (congrArg (· = true) hdone)⟩

theorem bytesDone_kept (hsilent : ∀ result, event ≠ .received result)
    (hnext : next.Replied) (hreplied : sender.Replied)
    (hstep : sender.step manifest event = some (next, output)) :
    next.bytesDone? manifest = sender.bytesDone? manifest ∧
      (next.SawComplete ↔ sender.SawComplete) := by
  cases sender with
  | greet => exact hreplied.elim
  | awaitReply => exact hreplied.elim
  | failed error => exact hreplied.elim
  | returned bytesDone =>
      cases event with
      | received result => exact absurd rfl (hsilent result)
      | _ => cases hstep
  | transfer state =>
      cases event with
      | received result => exact absurd rfl (hsilent result)
      | fail error effect =>
          have hfail : (transfer state).fail manifest error effect =
              some (next, output) := hstep
          rw [failed_of_fail hfail] at hnext
          exact hnext.elim
      | read file =>
          obtain ⟨read, _, hresult⟩ := Option.map_eq_some_iff.mp hstep
          refine bytesDone_of_afterRead ?_ hresult hnext
          intro worker
          exact ⟨rfl, rfl⟩
      | ctrlRead file =>
          obtain ⟨read, _, hresult⟩ := Option.map_eq_some_iff.mp hstep
          refine bytesDone_of_afterRead ?_ hresult hnext
          intro worker
          exact ⟨rfl, rfl⟩
      | ctrlProceed =>
          obtain ⟨⟨worker, output'⟩, _, hresult⟩ :=
            Option.map_eq_some_iff.mp hstep
          cases hresult
          exact ⟨rfl, Iff.rfl⟩
      | proceed =>
          simp only [step, proceed] at hstep
          split at hstep
          next =>
            cases hstep
            exact ⟨rfl, Iff.rfl⟩
          next =>
            split at hstep
            next hdone =>
              cases hstep
              exact ⟨rfl, iff_of_true trivial hdone⟩
            next => cases hstep
          next =>
            obtain ⟨⟨worker, output'⟩, _, hresult⟩ :=
              Option.map_eq_some_iff.mp hstep
            cases hresult
            exact ⟨rfl, Iff.rfl⟩

theorem bytesDone_heard {message : ControlMessage} {done : ℕ}
    (hnext : next.Replied) (hdone : sender.bytesDone? manifest = some done)
    (hstep : sender.step manifest (.received (.ok message)) =
      some (next, output)) :
    ¬ sender.SawComplete ∧
      next.bytesDone? manifest =
        some (doneAfter manifest.totalSize done message) ∧
      (next.SawComplete ↔ message = .complete) := by
  obtain ⟨after, hreceived, hresult⟩ := Option.map_eq_some_iff.mp hstep
  cases hresult
  cases sender with
  | greet => cases hdone
  | awaitReply => cases hdone
  | returned bytesDone => cases hreceived
  | failed error => cases hdone
  | transfer state =>
      simp only [bytesDone?, Option.some.injEq] at hdone
      subst done
      simp only [received] at hreceived
      split at hreceived
      next hidle =>
        have hnot : ¬ state.ctrlDone = true := by
          rw [hidle.1]
          exact Bool.false_ne_true
        refine ⟨hnot, ?_⟩
        cases message with
        | complete =>
            cases hreceived
            exact ⟨rfl, iff_of_true rfl rfl⟩
        | error code text =>
            cases hreceived
            exact hnext.elim
        | progress bytes =>
            cases hreceived
            exact ⟨rfl, iff_of_false hnot (by simp)⟩
        | manifest manifest =>
            cases hreceived
            exact ⟨rfl, iff_of_false hnot (by simp)⟩
        | manifestAck =>
            cases hreceived
            exact ⟨rfl, iff_of_false hnot (by simp)⟩
        | resumeRequest chunks =>
            cases hreceived
            exact ⟨rfl, iff_of_false hnot (by simp)⟩
        | chunkNack index =>
            cases hreceived
            exact ⟨rfl, iff_of_false hnot (by simp)⟩
      next => cases hreceived

end RelaySender

theorem relayCounter_laws (manifest : FileManifest) :
    CounterLaws relaySenderKind .awaitReply manifest
      (RelaySender.bytesDone? manifest) where
  start_none := rfl
  awaiting_none := rfl
  replied_iff := RelaySender.bytesDone_replied_iff
  saw_replied := by
    intro sender hsaw
    cases sender with
    | transfer state => trivial
    | returned bytesDone => trivial
    | _ => exact hsaw.elim
  kept := RelaySender.bytesDone_kept
  credit := by
    intro message next output skip hskip hstep
    obtain ⟨after, hreceived, hresult⟩ := Option.map_eq_some_iff.mp hstep
    cases hresult
    simp only [RelaySender.received, hskip, Option.some.injEq] at hreceived
    subst hreceived
    exact ⟨rfl, Bool.false_ne_true⟩
  heard := RelaySender.bytesDone_heard

/-! ## What the receive loops confirm -/

/-- The steps of a receive loop, by what they do to `confirmed` and report. -/
inductive CountStep {Sender Loop : Type} (kind : NetworkKind Sender Loop)
    (loop : Loop) : Receiver Loop → ReceiverOutput → Prop
  | records {next : Loop} {output : ReceiverOutput} {index : ℕ}
      {plaintext : Bytes} :
      kind.loop.holding loop = some (index, plaintext) →
      kind.delivers loop = [index] → output.messages = [] →
      (kind.loop.books next).confirmed =
        (kind.loop.books loop).confirmed + plaintext.length →
      (kind.loop.books next).state.chunksDone =
        insert index (kind.loop.books loop).state.chunksDone →
      (kind.loop.books next).pending =
        (kind.loop.books loop).pending.erase index →
      kind.loop.holding next = none → CountStep kind loop (.loop next) output
  | reports {next : Loop} {output : ReceiverOutput} :
      kind.delivers loop = [] →
      kind.loop.books next = kind.loop.books loop →
      (kind.loop.holding next = kind.loop.holding loop ∨
        kind.loop.holding next = none) →
      (∀ bytes, output = .ctrl (.progress bytes) →
        bytes = (kind.loop.books loop).confirmed) →
      (output = .ctrl .complete → (kind.loop.books loop).pending = ∅) →
      CountStep kind loop (.loop next) output
  | returns {output : ReceiverOutput} : kind.delivers loop = [] →
      output.messages = [] →
      CountStep kind loop (.returned (kind.loop.books loop)) output

structure CountLaws {Sender Loop : Type} (kind : NetworkKind Sender Loop) :
    Prop where
  proceed : ∀ {loop receiver output}, kind.loop.Regular loop →
    kind.loop.proceed loop = some (receiver, output) →
    CountStep kind loop receiver output
  receive : ∀ {read decode input loop next},
    kind.loop.receive read decode input loop = some (.loop next) →
    (kind.loop.books next).confirmed = (kind.loop.books loop).confirmed

theorem directCount_proceed {loop : DirectLoop} {receiver : DirectReceiver}
    {output : ReceiverOutput} (hregular : loop.Regular)
    (hproceed : loop.proceed = some (receiver, output)) :
    CountStep directNetwork loop receiver output := by
  have hstep := DirectLoop.proceed_booksStep hproceed
  have hfacts := DirectLoop.proceed_cases hregular hproceed
  cases hstep with
  | @spawn index plaintext hpc =>
      have hholding : loop.holding = some (index, plaintext) := by
        simp [DirectLoop.holding, hpc]
      have hdelivers : loop.delivers = [index] := by
        simp [DirectLoop.delivers, hpc]
      apply CountStep.records hholding hdelivers
      · rfl
      · simp [directNetwork, directLoopKind, Books.record]
      · simp [directNetwork, directLoopKind, Books.record]
      · simp [directNetwork, directLoopKind, Books.record]
      · exact DirectLoop.recordChunk_holding loop index plaintext
  | ack hpc hbooks hholding _ =>
      apply CountStep.reports
      · simp [directNetwork, DirectLoop.delivers, hpc]
      · exact hbooks
      · exact Or.inr hholding
      · intro bytes houtput
        cases houtput
        rfl
      · intro houtput
        cases houtput
  | @other next output _ hspawn hbooks hholding _ hprogress _ =>
      apply CountStep.reports
      · simp only [directNetwork, DirectLoop.delivers]
      · exact hbooks
      · exact Or.inl hholding
      · intro bytes houtput
        exact absurd houtput (hprogress bytes)
      · intro houtput
        obtain ⟨next', _, _, hproceeds⟩ | ⟨_, hreturned, _⟩ := hfacts
        · exact (hproceeds.complete (Or.inl houtput)).2.2.1
        · cases hreturned
  | returned hpc hprogress =>
      obtain ⟨next', hnext, _⟩ | ⟨_, _, houtput⟩ := hfacts
      · cases hnext
      · apply CountStep.returns
        · simp [directNetwork, DirectLoop.delivers, hpc]
        · rw [houtput]
          rfl

theorem directCount_laws : CountLaws directNetwork where
  proceed := directCount_proceed
  receive := by
    intro read decode input loop next hreceive
    obtain ⟨⟨receiver, rest⟩, hframe, hresult⟩ :=
      Option.map_eq_some_iff.mp hreceive
    dsimp only at hresult
    subst hresult
    obtain ⟨error, herror⟩ | ⟨next', hnext, hstep⟩ :=
      DirectLoop.receive_frameStep hframe
    · cases herror
    · cases hnext
      have hconfirmed := congrArg Books.confirmed hstep.books
      exact hconfirmed

theorem RelayLoop.reports_countStep {loop next : RelayLoop}
    {output : ReceiverOutput}
    (hpc : ∀ index plaintext, loop.pc ≠ .write index plaintext)
    (hbooks : next.books = loop.books) (hholding : next.holding = none)
    (hprogress : ∀ bytes, output = .ctrl (.progress bytes) →
      bytes = loop.books.confirmed)
    (hcomplete : output = .ctrl .complete → loop.books.pending = ∅) :
    CountStep relayNetwork loop (.loop next) output := by
  apply CountStep.reports
  · simp only [relayNetwork, RelayLoop.delivers]
  · exact hbooks
  · exact Or.inr hholding
  · exact hprogress
  · exact hcomplete

theorem relayCount_proceed {loop : RelayLoop} {receiver : RelayReceiver}
    {output : ReceiverOutput} (hregular : loop.Regular)
    (hproceed : loop.proceed = some (receiver, output)) :
    CountStep relayNetwork loop receiver output := by
  unfold RelayLoop.proceed at hproceed
  unfold RelayLoop.Regular at hregular
  split at hproceed
  next => cases hproceed
  next index hpc =>
    cases hproceed
    apply RelayLoop.reports_countStep
    · simp [hpc]
    · rfl
    · exact RelayLoop.toHead_holding loop
    · simp
    · simp
  next index plaintext hpc =>
    cases hproceed
    have hholding : loop.holding = some (index, plaintext) := by
      simp [RelayLoop.holding, hpc]
    have hdelivers : loop.delivers = [index] := by
      simp [RelayLoop.delivers, hpc]
    exact CountStep.records hholding hdelivers rfl rfl rfl rfl rfl
  next hpc =>
    cases hproceed
    apply RelayLoop.reports_countStep
    · simp [hpc]
    · exact RelayLoop.afterAck_books loop
    · exact RelayLoop.afterAck_holding loop
    · intro bytes houtput
      cases houtput
      rfl
    · simp
  next hpc =>
    cases hproceed
    apply RelayLoop.reports_countStep
    · simp [hpc]
    · rfl
    · exact RelayLoop.toHead_holding loop
    · simp
    · simp
  next hpc =>
    cases hproceed
    apply RelayLoop.reports_countStep
    · simp [hpc]
    · rfl
    · rfl
    · simp
    · simp
  next hpc =>
    cases hproceed
    rw [hpc] at hregular
    apply RelayLoop.reports_countStep
    · simp [hpc]
    · rfl
    · rfl
    · simp
    · exact fun _ => hregular
  next hpc =>
    cases hproceed
    have hdelivers : loop.delivers = [] := by
      simp [RelayLoop.delivers, hpc]
    exact CountStep.returns hdelivers rfl

theorem relayCount_laws : CountLaws relayNetwork where
  proceed := relayCount_proceed
  receive := by
    intro read decode input loop next hreceive
    obtain ⟨⟨receiver, rest⟩, hframe, hresult⟩ :=
      Option.map_eq_some_iff.mp hreceive
    dsimp only at hresult
    subst hresult
    obtain ⟨error, herror⟩ | ⟨next', hnext, hbooks, _⟩ :=
      RelayLoop.receive_books hframe
    · cases herror
    · cases hnext
      exact congrArg Books.confirmed hbooks

/-! ## Both ends and the reports between them -/

namespace NetworkSetting

variable (setting : NetworkSetting)

def bytesOf (indices : Finset ℕ) : ℕ :=
  ∑ index ∈ indices, setting.manifest.sizeOf index

/-- The chunks the receiver has accepted, in this transfer or before it. -/
def accepted (delivered : List ℕ) : Finset ℕ :=
  setting.haveChunks ∪ delivered.toFinset

def acceptedBytes (delivered : List ℕ) : ℕ :=
  setting.bytesOf (setting.accepted delivered)

def allChunks : Finset ℕ := Finset.range setting.manifest.chunkCount

theorem bytesOf_mono {few many : Finset ℕ} (hsubset : few ⊆ many) :
    setting.bytesOf few ≤ setting.bytesOf many :=
  Finset.sum_le_sum_of_subset hsubset

theorem accepted_nil : setting.accepted [] = setting.haveChunks :=
  Finset.union_empty _

theorem accepted_snoc (delivered : List ℕ) (index : ℕ) :
    setting.accepted (delivered ++ [index]) =
      insert index (setting.accepted delivered) := by
  unfold accepted
  ext other
  simp only [Finset.mem_union, Finset.mem_insert, List.mem_toFinset,
    List.mem_append, List.mem_singleton]
  tauto

/-- The chunks make up the file exactly while their number fits in 32 bits. -/
theorem totalSize_le_bytesOf_iff :
    setting.manifest.totalSize ≤ setting.bytesOf setting.allChunks ↔
      setting.manifestSource.totalSize ≤ (2 ^ 32 - 1) * 8388608 := by
  have hbegins : ∀ index < setting.manifest.chunkCount,
      setting.manifest.offset index ≤ setting.manifest.totalSize :=
    fun index hindex => (buildManifest_offset_lt hindex).le
  unfold bytesOf allChunks
  rw [FileManifest.sum_sizeOf_range _ hbegins, FileManifest.edge, le_min_iff,
    ← ceilDiv_chunkSizeFor_lt_iff]
  exact (and_iff_right (Nat.le_refl _)).trans buildManifest_totalSize_le_iff

end NetworkSetting

namespace Network

variable {Sender Loop : Type} (kind : NetworkKind Sender Loop)
  (counter : Sender → Option ℕ) (setting : NetworkSetting)

structure LoopCounted (delivered : List ℕ) (loop : Loop) : Prop where
  done : (kind.loop.books loop).state.chunksDone = setting.accepted delivered
  pending : (kind.loop.books loop).pending =
    setting.allChunks \ setting.accepted delivered
  confirmed : (kind.loop.books loop).confirmed =
    setting.acceptedBytes delivered
  held : ∀ index plaintext, kind.loop.holding loop = some (index, plaintext) →
    plaintext.length = setting.manifest.sizeOf index

/-- The state of the setup has the chunks that were found. -/
def SetupCounted : Setup → Prop
  | .createDir _ | .create _ | .setLen _ => setting.haveChunks = ∅
  | .reply _ state _ | .openFile _ state | .ready _ state =>
      state.chunksDone = setting.haveChunks
  | _ => True

def ReceiverCounted (delivered : List ℕ) : Receiver Loop → Prop
  | .setup setup => SetupCounted setting setup ∧ delivered = []
  | .loop loop => LoopCounted kind setting delivered loop
  | _ => True

/-- Before the reply is heard the reports climb from the credit it gives, and
then from the counter, and never above what was accepted. -/
structure Counted (s : Network Sender Loop) : Prop where
  inside : setting.accepted s.delivered ⊆ setting.allChunks
  receiver : ReceiverCounted kind setting s.delivered s.receiver
  awaited : counter s.sender = none → ∀ reply rest,
    s.reports = reply :: rest → IsReply reply →
      replySkip (.ok reply) = .ok setting.haveChunks ∧
        Climbs (setting.bytesOf setting.haveChunks)
          (setting.acceptedBytes s.delivered) rest
  climbs : ∀ done, counter s.sender = some done →
    ¬ kind.sender.sawComplete s.sender →
      Climbs done (setting.acceptedBytes s.delivered) s.reports
  all : .complete ∈ s.reports →
    setting.accepted s.delivered = setting.allChunks
  full : kind.sender.sawComplete s.sender →
    counter s.sender = some setting.manifest.totalSize

variable {kind counter setting} {s t : Network Sender Loop}

theorem counted_of_starts (hcounter : CounterLaws kind.sender kind.awaiting
      setting.manifest counter)
    (hfirst : kind.firstSetup = .acceptBi ∨ kind.firstSetup = .recvManifest)
    (hinside : setting.haveChunks ⊆ setting.allChunks)
    (hstart : Starts kind s) : Counted kind counter setting s where
  inside := by
    rw [hstart.delivered, setting.accepted_nil]
    exact hinside
  receiver := by
    rw [hstart.receiver, hstart.delivered]
    refine ⟨?_, rfl⟩
    rcases hfirst with hfirst | hfirst
    · rw [hfirst]
      trivial
    · rw [hfirst]
      trivial
  awaited := by
    intro _ reply rest hreports
    rw [hstart.reports] at hreports
    cases hreports
  climbs := by
    intro done hdone
    rw [hstart.sender, hcounter.start_none] at hdone
    cases hdone
  all := by
    intro hcomplete
    rw [hstart.reports] at hcomplete
    cases hcomplete
  full := by
    intro hsaw
    obtain ⟨done, hdone⟩ :=
      (hcounter.replied_iff _).mp (hcounter.saw_replied _ hsaw)
    rw [hstart.sender, hcounter.start_none] at hdone
    cases hdone

/-! ## Steps of the sender -/

/-- A sender that has not replied has not seen `Complete`. -/
theorem not_saw_of_none (hcounter : CounterLaws kind.sender kind.awaiting
      setting.manifest counter)
    {sender : Sender} (hnone : counter sender = none) :
    ¬ kind.sender.sawComplete sender := by
  intro hsaw
  obtain ⟨done, hdone⟩ :=
    (hcounter.replied_iff _).mp (hcounter.saw_replied _ hsaw)
  rw [hnone] at hdone
  cases hdone

/-- A step of the sender that hears nothing. -/
theorem sender_keeps (hlaws : kind.Laws setting)
    (hcounter : CounterLaws kind.sender kind.awaiting setting.manifest counter)
    (hsound : Sound kind setting s) {event : SenderEvent} {next : Sender}
    {output : SenderOutput}
    (hregular : event.regular setting.manifestSource.totalSize = true)
    (hstep : kind.sender.step setting.manifest s.sender event =
      some (next, output)) :
    counter next = counter s.sender ∧
      (kind.sender.sawComplete next ↔ kind.sender.sawComplete s.sender) := by
  have hawaiting : s.sender ≠ kind.awaiting := by
    intro hsender
    rw [hsender] at hstep
    rw [hlaws.awaiting_step hregular] at hstep
    contradiction
  cases hsound.phase with
  | silent hsender _ _ _ =>
      rw [hsender] at hstep
      rcases hlaws.start_step hregular hstep with ⟨rfl, _⟩
      rw [hsender, hcounter.start_none, hcounter.awaiting_none]
      exact ⟨rfl, iff_of_false
        (not_saw_of_none hcounter hcounter.awaiting_none)
        (not_saw_of_none hcounter hcounter.start_none)⟩
  | announced hsender _ _ _ _ => exact absurd hsender hawaiting
  | deciding hsender _ _ _ => exact absurd hsender hawaiting
  | answered reply rest hsender _ _ _ _ _ => exact absurd hsender hawaiting
  | running hreplied _ _ _ =>
      have hcopies : ∀ index,
          0 < (kind.copies setting.manifest s.sender).count index →
          index < setting.manifest.chunkCount := by
        intro index hindex
        apply hsound.index_lt
        rw [count_allCopies]
        omega
      rcases hlaws.replied_step hsound.orderly hreplied hregular hcopies hstep
        with ⟨_, hkeeps, _⟩
      have hsilent : ∀ result, event ≠ .received result := by
        rintro result rfl
        cases hregular
      exact hcounter.kept hsilent hkeeps hreplied hstep

theorem Counted.of_sender (hcounted : Counted kind counter setting s)
    (hcount : counter t.sender = counter s.sender)
    (hsaw : kind.sender.sawComplete t.sender ↔
      kind.sender.sawComplete s.sender)
    (hreceiver : t.receiver = s.receiver) (hreports : t.reports = s.reports)
    (hdelivered : t.delivered = s.delivered) :
    Counted kind counter setting t where
  inside := by
    rw [hdelivered]
    exact hcounted.inside
  receiver := by
    rw [hdelivered, hreceiver]
    exact hcounted.receiver
  awaited := by
    rw [hcount, hreports, hdelivered]
    exact hcounted.awaited
  climbs := by
    rw [hcount, hreports, hdelivered, hsaw]
    exact hcounted.climbs
  all := by
    rw [hreports, hdelivered]
    exact hcounted.all
  full := by
    rw [hcount, hsaw]
    exact hcounted.full

theorem counted_sender (hlaws : kind.Laws setting)
    (hcounter : CounterLaws kind.sender kind.awaiting setting.manifest counter)
    (hsound : Sound kind setting s) (hcounted : Counted kind counter setting s)
    {event : SenderEvent} {next : Sender} {output : SenderOutput}
    (hregular : event.regular setting.manifestSource.totalSize = true)
    (hstep : kind.sender.step setting.manifest s.sender event =
      some (next, output)) :
    Counted kind counter setting
      ({ s with sender := next }.emit kind setting output) := by
  obtain ⟨hcount, hsaw⟩ := sender_keeps hlaws hcounter hsound hregular hstep
  apply hcounted.of_sender
  · rw [emit_sender]
    exact hcount
  · rw [emit_sender]
    exact hsaw
  · rw [emit_receiver]
  · rw [emit_reports]
  · rw [emit_delivered]

/-- The counter once the head of the reports is heard: the credit of the reply,
or what the control loop makes of a report. -/
theorem hears_counter (hlaws : kind.Laws setting)
    (hcounter : CounterLaws kind.sender kind.awaiting setting.manifest counter)
    (hsound : Sound kind setting s) (hcounted : Counted kind counter setting s)
    {message : ControlMessage} {reports : List ControlMessage} {next : Sender}
    {output : SenderOutput} (hreports : s.reports = message :: reports)
    (hstep : kind.sender.step setting.manifest s.sender
      (.received (.ok message)) = some (next, output)) :
    (counter s.sender = none ∧ message ≠ .complete ∧
        ¬ kind.sender.sawComplete next ∧
        counter next = some (setting.bytesOf setting.haveChunks) ∧
        Climbs (setting.bytesOf setting.haveChunks)
          (setting.acceptedBytes s.delivered) reports) ∨
      ∃ done, counter s.sender = some done ∧
        ¬ kind.sender.sawComplete s.sender ∧
        (kind.sender.sawComplete next ↔ message = .complete) ∧
        counter next =
          some (doneAfter setting.manifest.totalSize done message) := by
  cases hsound.phase with
  | silent _ _ _ hempty => simp [hempty] at hreports
  | announced _ _ _ _ hempty => simp [hempty] at hreports
  | deciding _ _ _ hempty => simp [hempty] at hreports
  | answered reply rest hsender _ _ hqueue hreply _ =>
      rw [hreports, List.cons.injEq] at hqueue
      obtain ⟨rfl, rfl⟩ := hqueue
      have hnone : counter s.sender = none := by
        rw [hsender]
        exact hcounter.awaiting_none
      obtain ⟨hskip, hclimbs⟩ :=
        hcounted.awaited hnone message reports hreports hreply
      rw [hsender] at hstep
      obtain ⟨hcredit, hsaw⟩ := hcounter.credit hskip hstep
      refine Or.inl ⟨hnone, ?_, hsaw, hcredit, hclimbs⟩
      rintro rfl
      obtain ⟨skip, hcomplete⟩ := hreply
      cases hcomplete
  | running hreplied _ _ hrest =>
      rw [hreports] at hrest
      have hreport := hrest message List.mem_cons_self
      obtain ⟨done, hdone⟩ := (hcounter.replied_iff _).mp hreplied
      obtain ⟨_, _, hkeeps, _⟩ := hlaws.received hsound.orderly
        (iff_of_false hreport.not_isReply (not_not_intro hreplied))
        hreport.ne_error hstep
      obtain ⟨hquiet, hafter, hsaw⟩ := hcounter.heard hkeeps hdone hstep
      exact Or.inr ⟨done, hdone, hquiet, hsaw, hafter⟩

theorem counted_senderHears (hlaws : kind.Laws setting)
    (hcounter : CounterLaws kind.sender kind.awaiting setting.manifest counter)
    (hsound : Sound kind setting s) (hcounted : Counted kind counter setting s)
    {message : ControlMessage} {reports : List ControlMessage} {next : Sender}
    {output : SenderOutput} (hreports : s.reports = message :: reports)
    (hstep : kind.sender.step setting.manifest s.sender
      (.received (.ok message)) = some (next, output)) :
    Counted kind counter setting
      ({ s with sender := next, reports }.emit kind setting output) := by
  have hall : .complete ∈ reports →
      setting.accepted s.delivered = setting.allChunks := by
    intro hcomplete
    apply hcounted.all
    rw [hreports]
    exact List.mem_cons_of_mem _ hcomplete
  have hnone : counter next ≠ none := by
    obtain ⟨_, _, _, hafter, _⟩ | ⟨done, _, _, _, hafter⟩ :=
      hears_counter hlaws hcounter hsound hcounted hreports hstep
    · rw [hafter]
      exact Option.some_ne_none _
    · rw [hafter]
      exact Option.some_ne_none _
  constructor
  · rw [emit_delivered]
    exact hcounted.inside
  · rw [emit_delivered, emit_receiver]
    exact hcounted.receiver
  · intro hempty
    rw [emit_sender] at hempty
    exact absurd hempty hnone
  · intro done hdone hquiet
    rw [emit_sender] at hdone hquiet
    rw [emit_delivered, emit_reports]
    dsimp only at hdone hquiet ⊢
    obtain ⟨_, _, _, hafter, hclimbs⟩ | ⟨before, hbefore, hsaw, hlast, hafter⟩ :=
      hears_counter hlaws hcounter hsound hcounted hreports hstep
    · rw [hafter] at hdone
      cases hdone
      exact hclimbs
    · have hclimbs := hcounted.climbs before hbefore hsaw
      rw [hreports] at hclimbs
      rw [hafter] at hdone
      cases hdone
      exact (hclimbs.tail (mt hlast.mpr hquiet)).2
  · rw [emit_reports, emit_delivered]
    exact hall
  · intro hsaw
    rw [emit_sender] at hsaw ⊢
    dsimp only at hsaw ⊢
    obtain ⟨_, _, hquiet, _, _⟩ | ⟨before, _, _, hlast, hafter⟩ :=
      hears_counter hlaws hcounter hsound hcounted hreports hstep
    · exact absurd hsaw hquiet
    · rw [hafter, hlast.mp hsaw]
      rfl

/-! ## Steps of the receiver -/

/-- What the receiver may push behind the reports on their way. -/
structure Fits (setting : NetworkSetting) (delivered : List ℕ)
    (message : ControlMessage) : Prop where
  progress : ∀ bytes, message = .progress bytes →
    bytes = setting.acceptedBytes delivered
  complete : message = .complete →
    setting.accepted delivered = setting.allChunks

/-- A step of the receiver that says nothing. -/
theorem Counted.of_quiet (hcounted : Counted kind counter setting s)
    (hsender : t.sender = s.sender) (hreports : t.reports = s.reports)
    (hdelivered : t.delivered = s.delivered)
    (hreceiver : ReceiverCounted kind setting s.delivered t.receiver) :
    Counted kind counter setting t where
  inside := by
    rw [hdelivered]
    exact hcounted.inside
  receiver := by
    rw [hdelivered]
    exact hreceiver
  awaited := by
    rw [hsender, hreports, hdelivered]
    exact hcounted.awaited
  climbs := by
    rw [hsender, hreports, hdelivered]
    exact hcounted.climbs
  all := by
    rw [hreports, hdelivered]
    exact hcounted.all
  full := by
    rw [hsender]
    exact hcounted.full

/-- A step of the receiver that accepts a chunk. -/
theorem Counted.of_accepted (hcounted : Counted kind counter setting s)
    (hsender : t.sender = s.sender) (hreports : t.reports = s.reports)
    (hgrows : setting.accepted s.delivered ⊆ setting.accepted t.delivered)
    (hinside : setting.accepted t.delivered ⊆ setting.allChunks)
    (hreceiver : ReceiverCounted kind setting t.delivered t.receiver) :
    Counted kind counter setting t where
  inside := hinside
  receiver := hreceiver
  awaited := by
    intro hnone reply rest hqueue hreply
    rw [hsender] at hnone
    rw [hreports] at hqueue
    obtain ⟨hskip, hclimbs⟩ := hcounted.awaited hnone reply rest hqueue hreply
    exact ⟨hskip, hclimbs.raise (setting.bytesOf_mono hgrows)⟩
  climbs := by
    intro done hdone hsaw
    rw [hsender] at hdone hsaw
    rw [hreports]
    exact (hcounted.climbs done hdone hsaw).raise (setting.bytesOf_mono hgrows)
  all := by
    intro hcomplete
    rw [hreports] at hcomplete
    apply Finset.Subset.antisymm hinside
    rw [← hcounted.all hcomplete]
    exact hgrows
  full := by
    rw [hsender]
    exact hcounted.full

/-- A step of the receiver that reports. -/
theorem Counted.of_report (hcounted : Counted kind counter setting s)
    {message : ControlMessage} (hsender : t.sender = s.sender)
    (hreports : t.reports = s.reports ++ [message])
    (hdelivered : t.delivered = s.delivered)
    (hfits : Fits setting s.delivered message)
    (hheard : counter s.sender = none → s.reports ≠ [])
    (hreceiver : ReceiverCounted kind setting s.delivered t.receiver) :
    Counted kind counter setting t where
  inside := by
    rw [hdelivered]
    exact hcounted.inside
  receiver := by
    rw [hdelivered]
    exact hreceiver
  awaited := by
    intro hnone reply rest hqueue hreply
    rw [hsender] at hnone
    rw [hreports] at hqueue
    rw [hdelivered]
    cases hbefore : s.reports with
    | nil => exact absurd hbefore (hheard hnone)
    | cons first others =>
        rw [hbefore, List.cons_append, List.cons.injEq] at hqueue
        obtain ⟨rfl, rfl⟩ := hqueue
        obtain ⟨hskip, hclimbs⟩ :=
          hcounted.awaited hnone first others hbefore hreply
        exact ⟨hskip, hclimbs.snoc hfits.progress⟩
  climbs := by
    intro done hdone hsaw
    rw [hsender] at hdone hsaw
    rw [hreports, hdelivered]
    exact (hcounted.climbs done hdone hsaw).snoc hfits.progress
  all := by
    intro hcomplete
    rw [hreports] at hcomplete
    rw [hdelivered]
    rcases List.mem_append.mp hcomplete with hbefore | hnow
    · exact hcounted.all hbefore
    · exact hfits.complete (List.mem_singleton.mp hnow).symm
  full := by
    rw [hsender]
    exact hcounted.full

theorem receiverMoves_of_setup {setup : Setup} {receiver : Receiver Loop}
    {output : ReceiverOutput} (hsetup : s.receiver = .setup setup) :
    (s.receiverMoves kind receiver output).delivered = s.delivered := by
  simp [receiverMoves, deliversNext, hsetup]

/-- The reply is the first message, and its credit what the state has. -/
theorem counted_reply (hcounter : CounterLaws kind.sender kind.awaiting
      setting.manifest counter) (hcounted : Counted kind counter setting s)
    (hsender : s.sender = kind.awaiting) (hempty : s.delivered = [])
    {message : ControlMessage}
    (hreply : replySkip (.ok message) = .ok setting.haveChunks)
    (htsender : t.sender = s.sender) (htreports : t.reports = [message])
    (hdelivered : t.delivered = s.delivered)
    (hreceiver : ReceiverCounted kind setting s.delivered t.receiver) :
    Counted kind counter setting t := by
  have hnone : counter t.sender = none := by
    rw [htsender, hsender]
    exact hcounter.awaiting_none
  constructor
  · rw [hdelivered]
    exact hcounted.inside
  · rw [hdelivered]
    exact hreceiver
  · intro _ reply rest hqueue _
    rw [htreports, List.cons.injEq] at hqueue
    obtain ⟨rfl, rfl⟩ := hqueue
    refine ⟨hreply, ?_⟩
    rw [hdelivered, hempty]
    unfold NetworkSetting.acceptedBytes
    rw [setting.accepted_nil]
    exact Nat.le_refl _
  · intro done hdone
    rw [hnone] at hdone
    cases hdone
  · intro hcomplete
    rw [htreports, List.mem_singleton] at hcomplete
    rw [← hcomplete] at hreply
    cases hreply
  · intro hsaw
    exact absurd hsaw (not_saw_of_none hcounter hnone)

theorem counted_setup (hlaws : kind.Laws setting)
    (hcounter : CounterLaws kind.sender kind.awaiting setting.manifest counter)
    (hsound : Sound kind setting s) (hcounted : Counted kind counter setting s)
    {setup : Setup} {receiver : Receiver Loop} {output : ReceiverOutput}
    (hsetup : s.receiver = .setup setup)
    (hproceed : s.receiver.proceed kind.loop.toReceiveLoop setting.outputDir =
      some (receiver, output)) :
    Counted kind counter setting (s.receiverMoves kind receiver output) := by
  have hreceiver := hsound.receiver
  have hbefore := hcounted.receiver
  rw [hsetup] at hreceiver hproceed hbefore
  cases setup with
  | acceptBi =>
      cases hproceed
      rw [receiverMoves_setup hsetup rfl]
      exact hcounted.of_quiet rfl rfl rfl ⟨trivial, hbefore.2⟩
  | recvManifest => contradiction
  | reject => exact hreceiver.elim
  | lookup m => contradiction
  | createDir m =>
      cases hproceed
      rw [receiverMoves_setup hsetup rfl]
      exact hcounted.of_quiet rfl rfl rfl hbefore
  | create m =>
      cases hproceed
      rw [receiverMoves_setup hsetup rfl]
      exact hcounted.of_quiet rfl rfl rfl hbefore
  | setLen m =>
      cases hproceed
      rw [receiverMoves_setup hsetup rfl]
      exact hcounted.of_quiet rfl rfl rfl ⟨hbefore.1.symm, hbefore.2⟩
  | reply m state message =>
      rcases hreceiver with ⟨rfl, _, hreply⟩
      obtain ⟨hfound, hempty⟩ := hbefore
      cases hproceed
      have hdeciding : s.receiver.stage = .deciding := by
        rw [hsetup]
        rfl
      rcases hsound.phase_of_deciding hdeciding with ⟨hsender, _, hreports⟩
      have hfound : state.chunksDone = setting.haveChunks := hfound
      rw [hfound] at hreply
      apply counted_reply hcounter hcounted hsender hempty hreply
      · rfl
      · simp [receiverMoves, hreports, ReceiverOutput.messages]
      · exact receiverMoves_of_setup hsetup
      · exact ⟨hfound, hempty⟩
  | openFile m state =>
      cases hproceed
      rw [receiverMoves_setup hsetup rfl]
      exact hcounted.of_quiet rfl rfl rfl hbefore
  | ready m state =>
      rcases hreceiver with ⟨rfl, hstate⟩
      obtain ⟨hfound, hempty⟩ := hbefore
      have hfound : state.chunksDone = setting.haveChunks := hfound
      cases hproceed
      rw [receiverMoves_setup hsetup rfl]
      have hbooks := hlaws.loop.start_books
        (.start setting.outputDir setting.manifest state)
      refine hcounted.of_quiet rfl rfl rfl ?_
      rw [hempty]
      constructor
      · rw [hbooks, setting.accepted_nil]
        exact hfound
      · rw [hbooks, setting.accepted_nil]
        ext index
        simp [Books.start, TransferState.mem_missingChunks, hstate, hfound,
          NetworkSetting.allChunks]
      · rw [hbooks]
        unfold NetworkSetting.acceptedBytes
        rw [setting.accepted_nil, ← hfound]
        rfl
      · intro index plaintext hholding
        rw [hlaws.loop.start_holding] at hholding
        cases hholding
  | failed error => exact hreceiver.elim

/-- The chunk that a step of the loop hands to the disk is one it waits for. -/
theorem delivers_pending (hlaws : kind.Laws setting)
    (hsound : Sound kind setting s) {loop : Loop} {receiver : Receiver Loop}
    {output : ReceiverOutput} (hloop : s.receiver = .loop loop)
    (hproceed : kind.loop.proceed loop = some (receiver, output))
    {index : ℕ} (hindex : index ∈ kind.delivers loop) :
    index ∈ (kind.loop.books loop).pending := by
  obtain ⟨_, _, hmove⟩ := hlaws.move hproceed
  have hcopies : s.receiver.copies setting.manifest kind.held =
      kind.held loop := by
    rw [hloop]
    rfl
  have hmem : index ∈ s.receiver.outstanding kind.loop.books := by
    apply hsound.mem_outstanding
    have hpos : 0 < (kind.delivers loop).count index :=
      List.count_pos_iff.mpr hindex
    have hcount := hmove.count index
    rw [count_allCopies, hcopies]
    omega
  rw [hloop] at hmem
  exact hmem

/-- A receiver in its loop has replied, so that something is on its way if the
sender has not heard it. -/
theorem reports_of_loop (hcounter : CounterLaws kind.sender kind.awaiting
      setting.manifest counter) (hsound : Sound kind setting s) {loop : Loop}
    (hloop : s.receiver = .loop loop) :
    counter s.sender = none → s.reports ≠ [] := by
  have hstage : s.receiver.stage = .answered := by
    rw [hloop]
    rfl
  intro hnone
  cases hsound.phase with
  | silent _ hbefore _ _ =>
      rw [hstage] at hbefore
      contradiction
  | announced _ hbefore _ _ _ =>
      rw [hstage] at hbefore
      contradiction
  | deciding _ hbefore _ _ =>
      rw [hstage] at hbefore
      contradiction
  | answered reply rest _ _ _ hqueue _ _ =>
      rw [hqueue]
      exact List.cons_ne_nil _ _
  | running hreplied _ _ _ =>
      obtain ⟨done, hdone⟩ := (hcounter.replied_iff _).mp hreplied
      rw [hnone] at hdone
      cases hdone

theorem counted_records {loop next : Loop} {index : ℕ} {plaintext : Bytes}
    (hcounted : Counted kind counter setting s)
    (hbefore : LoopCounted kind setting s.delivered loop)
    (hpending : index ∈ (kind.loop.books loop).pending)
    (hholding : kind.loop.holding loop = some (index, plaintext))
    (hconfirmed : (kind.loop.books next).confirmed =
      (kind.loop.books loop).confirmed + plaintext.length)
    (hdone : (kind.loop.books next).state.chunksDone =
      insert index (kind.loop.books loop).state.chunksDone)
    (herase : (kind.loop.books next).pending =
      (kind.loop.books loop).pending.erase index)
    (hempty : kind.loop.holding next = none)
    (hsender : t.sender = s.sender) (hreports : t.reports = s.reports)
    (hdelivered : t.delivered = s.delivered ++ [index])
    (hreceiver : t.receiver = .loop next) :
    Counted kind counter setting t := by
  rw [hbefore.pending, Finset.mem_sdiff] at hpending
  have haccepted : setting.accepted t.delivered =
      insert index (setting.accepted s.delivered) := by
    rw [hdelivered]
    exact setting.accepted_snoc s.delivered index
  apply hcounted.of_accepted hsender hreports
  · rw [haccepted]
    exact Finset.subset_insert _ _
  · rw [haccepted]
    exact Finset.insert_subset hpending.1 hcounted.inside
  · rw [hreceiver]
    constructor
    · rw [hdone, hbefore.done, haccepted]
    · rw [herase, hbefore.pending, haccepted, Finset.sdiff_insert]
    · have hlength := hbefore.held index plaintext hholding
      unfold NetworkSetting.acceptedBytes NetworkSetting.bytesOf
      rw [haccepted, Finset.sum_insert hpending.2, hconfirmed,
        hbefore.confirmed, hlength]
      exact Nat.add_comm _ _
    · intro other bytes hother
      rw [hempty] at hother
      cases hother

theorem counted_loop (hlaws : kind.Laws setting) (hcount : CountLaws kind)
    (hcounter : CounterLaws kind.sender kind.awaiting setting.manifest counter)
    (hsound : Sound kind setting s) (hcounted : Counted kind counter setting s)
    {loop : Loop} {receiver : Receiver Loop} {output : ReceiverOutput}
    (hloop : s.receiver = .loop loop)
    (hproceed : kind.loop.proceed loop = some (receiver, output)) :
    Counted kind counter setting (s.receiverMoves kind receiver output) := by
  have hregular := hsound.receiver
  have hbefore := hcounted.receiver
  rw [hloop] at hregular hbefore
  have hbefore : LoopCounted kind setting s.delivered loop := hbefore
  have hdelivers : (s.receiverMoves kind receiver output).delivered =
      s.delivered ++ kind.delivers loop := by
    simp [receiverMoves, deliversNext, hloop]
  have hpending : ∀ index ∈ kind.delivers loop,
      index ∈ (kind.loop.books loop).pending := fun _ hindex =>
    delivers_pending hlaws hsound hloop hproceed hindex
  cases hcount.proceed hregular.1 hproceed with
  | @records next output index plaintext hholding hindex hmessages hconfirmed
      hdone herase hempty =>
      have hmem : index ∈ kind.delivers loop := by
        rw [hindex]
        exact List.mem_singleton_self index
      rw [hindex] at hdelivers
      apply counted_records hcounted hbefore (hpending index hmem) hholding
        hconfirmed hdone herase hempty
      · rfl
      · simp [receiverMoves, hmessages]
      · exact hdelivers
      · rfl
  | @reports next output hnone hbooks hholding hprogress hcomplete =>
      rw [hnone, List.append_nil] at hdelivers
      have hafter : LoopCounted kind setting s.delivered next := by
        constructor
        · rw [hbooks]
          exact hbefore.done
        · rw [hbooks]
          exact hbefore.pending
        · rw [hbooks]
          exact hbefore.confirmed
        · intro index plaintext hheld
          rcases hholding with hsame | hempty
          · rw [hsame] at hheld
            exact hbefore.held index plaintext hheld
          · rw [hempty] at hheld
            cases hheld
      cases output with
      | ctrl message =>
          apply hcounted.of_report
          · rfl
          · rfl
          · exact hdelivers
          · constructor
            · rintro bytes rfl
              rw [hprogress bytes rfl]
              exact hbefore.confirmed
            · rintro rfl
              have hall := hcomplete rfl
              rw [hbefore.pending, Finset.sdiff_eq_empty_iff_subset] at hall
              exact Finset.Subset.antisymm hcounted.inside hall
          · exact reports_of_loop hcounter hsound hloop
          · exact hafter
      | none =>
          refine hcounted.of_quiet rfl ?_ hdelivers hafter
          simp [receiverMoves, ReceiverOutput.messages]
      | file op =>
          refine hcounted.of_quiet rfl ?_ hdelivers hafter
          simp [receiverMoves, ReceiverOutput.messages]
      | save state =>
          refine hcounted.of_quiet rfl ?_ hdelivers hafter
          simp [receiverMoves, ReceiverOutput.messages]
      | delete state =>
          refine hcounted.of_quiet rfl ?_ hdelivers hafter
          simp [receiverMoves, ReceiverOutput.messages]
  | returns hnone hmessages =>
      rw [hnone, List.append_nil] at hdelivers
      refine hcounted.of_quiet rfl ?_ hdelivers trivial
      simp [receiverMoves, hmessages]

theorem counted_receiverHears (hcounted : Counted kind counter setting s)
    {rest : List Item} {receiver : Receiver Loop}
    {result : Except Error ControlMessage}
    (hreceived : s.receiver.received result = some receiver) :
    Counted kind counter setting ({ s with receiver }.pop .control rest) := by
  have hbefore := hcounted.receiver
  unfold Receiver.received at hreceived
  split at hreceived
  next hsetup =>
    rw [hsetup] at hbefore
    cases hreceived
    refine hcounted.of_quiet rfl rfl rfl ?_
    have hempty : s.delivered = [] := hbefore.2
    cases result with
    | error error => trivial
    | ok message =>
        cases message with
        | manifest manifest =>
            unfold Setup.afterManifest
            dsimp only [pop]
            split
            · exact ⟨trivial, hempty⟩
            · exact ⟨trivial, hempty⟩
        | _ => trivial
  next => cases hreceived

theorem counted_receiverLooksUp (hsound : Sound kind setting s)
    (hcounted : Counted kind counter setting s) {receiver : Receiver Loop}
    (hlookup : s.receiver.lookup setting.outputDir setting.pathExists
      setting.files = some receiver) :
    Counted kind counter setting { s with receiver } := by
  have hreceiver := hsound.receiver
  have hbefore := hcounted.receiver
  unfold Receiver.lookup at hlookup
  split at hlookup
  next m hsetup =>
    rw [hsetup] at hreceiver hbefore
    have hm : m = setting.manifest := hreceiver
    subst m
    have hempty : s.delivered = [] := hbefore.2
    cases hlookup
    refine hcounted.of_quiet rfl rfl rfl ?_
    have hfound : setting.found = findResumable setting.pathExists
        setting.files setting.manifest setting.outputDir := rfl
    rw [← hfound]
    cases hstate : setting.found with
    | none =>
        have hhave : setting.haveChunks = ∅ := by
          unfold NetworkSetting.haveChunks
          rw [hstate]
        exact ⟨hhave, hempty⟩
    | some state =>
        have hhave : state.chunksDone = setting.haveChunks := by
          unfold NetworkSetting.haveChunks
          rw [hstate]
        exact ⟨hhave, hempty⟩
  next => cases hlookup

theorem counted_receiverReads (hlaws : kind.Laws setting)
    (hcount : CountLaws kind) (hsound : Sound kind setting s)
    (hcounted : Counted kind counter setting s) {loop : Loop} {frame : Frame}
    {rest : List Item} {receiver : Receiver Loop}
    (hloop : s.receiver = .loop loop)
    (hreceive : kind.loop.receive setting.read setting.msgPack.decode
      (kind.wire frame) loop = some receiver) :
    Counted kind counter setting
      ({ s with receiver }.pop kind.dataStream rest) := by
  have hregular := hsound.receiver
  have hbefore := hcounted.receiver
  rw [hloop] at hregular hbefore
  have hbefore : LoopCounted kind setting s.delivered loop := hbefore
  refine hcounted.of_quiet rfl rfl rfl ?_
  obtain ⟨error, rfl⟩ | ⟨next, rfl, _, hfacts⟩ :=
    hlaws.loop.receive_cases hregular.1 hreceive
  · trivial
  · have hafter : LoopCounted kind setting s.delivered next := by
      constructor
      · rw [hfacts.state]
        exact hbefore.done
      · rw [hfacts.pending]
        exact hbefore.pending
      · rw [hcount.receive hreceive]
        exact hbefore.confirmed
      · intro index plaintext hholding
        have hlength := (hfacts.holding index plaintext hholding).1
        rw [hregular.2.1] at hlength
        exact hlength
    exact hafter

theorem counted_next (hlaws : kind.Laws setting) (hcount : CountLaws kind)
    (hcounter : CounterLaws kind.sender kind.awaiting setting.manifest counter)
    (hsound : Sound kind setting s) (hcounted : Counted kind counter setting s)
    {event : NetworkEvent} (hnext : next kind setting s event = some t) :
    Counted kind counter setting t := by
  cases event with
  | sender event =>
      simp only [next] at hnext
      split at hnext
      next hregular =>
        obtain ⟨⟨sender, output⟩, hstep, rfl⟩ :=
          Option.map_eq_some_iff.mp hnext
        exact counted_sender hlaws hcounter hsound hcounted hregular hstep
      next => contradiction
  | senderHears =>
      simp only [next] at hnext
      split at hnext
      next message reports hreports =>
        obtain ⟨⟨sender, output⟩, hstep, rfl⟩ :=
          Option.map_eq_some_iff.mp hnext
        exact counted_senderHears hlaws hcounter hsound hcounted hreports hstep
      next => contradiction
  | receiverProceeds =>
      simp only [next] at hnext
      split at hnext
      next => contradiction
      next =>
        obtain ⟨⟨receiver, output⟩, hproceed, rfl⟩ :=
          Option.map_eq_some_iff.mp hnext
        cases hreceiver : s.receiver with
        | setup setup =>
            exact counted_setup hlaws hcounter hsound hcounted hreceiver hproceed
        | loop loop =>
            rw [hreceiver] at hproceed
            exact counted_loop hlaws hcount hcounter hsound hcounted hreceiver
              hproceed
        | returned books =>
            rw [hreceiver] at hproceed
            contradiction
        | failed error =>
            rw [hreceiver] at hproceed
            contradiction
  | receiverHears =>
      simp only [next] at hnext
      split at hnext
      next message rest hstream =>
        obtain ⟨receiver, hreceived, rfl⟩ := Option.map_eq_some_iff.mp hnext
        exact counted_receiverHears hcounted hreceived
      next frame rest hstream =>
        obtain ⟨receiver, hreceived, rfl⟩ := Option.map_eq_some_iff.mp hnext
        exact counted_receiverHears hcounted hreceived
      next => contradiction
  | receiverLooksUp =>
      obtain ⟨receiver, hlookup, rfl⟩ := Option.map_eq_some_iff.mp hnext
      exact counted_receiverLooksUp hsound hcounted hlookup
  | receiverReads =>
      simp only [next] at hnext
      split at hnext
      next loop frame rest hloop hstream =>
        obtain ⟨receiver, hreceive, rfl⟩ := Option.map_eq_some_iff.mp hnext
        exact counted_receiverReads hlaws hcount hsound hcounted hloop hreceive
      next loop message rest hloop hstream =>
        have hstage : s.receiver.stage = .answered := by
          rw [hloop]
          rfl
        have hframed := hsound.framed_of_answered hstage kind.dataStream
          (.ctrl message)
        rw [hstream] at hframed
        exact (hframed List.mem_cons_self).elim
      next => contradiction
  | corrupt stream position subs =>
      obtain ⟨item, _, hresult⟩ := Option.bind_eq_some_iff.mp hnext
      obtain ⟨item', _, rfl⟩ := Option.map_eq_some_iff.mp hresult
      exact hcounted.of_quiet rfl rfl rfl hcounted.receiver

theorem counted_of_reachable (hlaws : kind.Laws setting)
    (hcount : CountLaws kind)
    (hcounter : CounterLaws kind.sender kind.awaiting setting.manifest counter)
    (hinside : setting.haveChunks ⊆ setting.allChunks)
    (hreach : (machine kind setting).Reachable s) :
    Counted kind counter setting s := by
  have hboth : Sound kind setting s ∧ Counted kind counter setting s := by
    apply hreach.invariant
    · intro s₀ hstart
      exact ⟨sound_of_starts hlaws hstart,
        counted_of_starts hcounter hlaws.firstSetup hinside hstart⟩
    · rintro u event v ⟨hsound, hcounted⟩ hnext
      exact ⟨sound_next hlaws hsound hnext,
        counted_next hlaws hcount hcounter hsound hcounted hnext⟩
  exact hboth.2

/-! ## The values the counter takes -/

/-- What the counter shows: never more than was accepted or than there is, and
all of it when the call has returned. -/
structure CounterRight (kind : NetworkKind Sender Loop)
    (counter : Sender → Option ℕ) (setting : NetworkSetting)
    (s : Network Sender Loop) : Prop where
  accepted : ∀ done, counter s.sender = some done →
    done ≤ setting.acceptedBytes s.delivered
  total : ∀ done, counter s.sender = some done →
    done ≤ setting.manifest.totalSize
  returned : kind.sender.returnedOk s.sender →
    counter s.sender = some setting.manifest.totalSize

/-- The counter has not gone back. -/
def Grows (counter : Sender → Option ℕ) (later earlier : Network Sender Loop) :
    Prop :=
  ∀ done, counter earlier.sender = some done →
    ∃ after, counter later.sender = some after ∧ done ≤ after

/-- The sender takes `Complete` from its control stream. -/
def HearsComplete (s : Network Sender Loop) (event : NetworkEvent) : Prop :=
  event = .senderHears ∧ s.reports.head? = some .complete

theorem accepted_le_total (hcounted : Counted kind counter setting s) :
    setting.acceptedBytes s.delivered ≤ setting.manifest.totalSize :=
  (buildManifest_countedWithin setting.manifestSource).sum_sizeOf_le
    hcounted.inside

theorem counter_le_total (hcounted : Counted kind counter setting s) {done : ℕ}
    (hdone : counter s.sender = some done) :
    done ≤ setting.manifest.totalSize := by
  by_cases hsaw : kind.sender.sawComplete s.sender
  · rw [hcounted.full hsaw] at hdone
    cases hdone
    exact Nat.le_refl _
  · exact (hcounted.climbs done hdone hsaw).le.trans (accepted_le_total hcounted)

/-- Only `Complete` can put the counter above what was accepted. -/
theorem counterRight_iff (hlaws : kind.Laws setting)
    (hcounted : Counted kind counter setting s) :
    CounterRight kind counter setting s ↔
      (kind.sender.sawComplete s.sender →
        setting.manifest.totalSize ≤ setting.acceptedBytes s.delivered) := by
  constructor
  · intro hright hsaw
    exact hright.accepted _ (hcounted.full hsaw)
  · intro hlast
    constructor
    · intro done hdone
      by_cases hsaw : kind.sender.sawComplete s.sender
      · rw [hcounted.full hsaw] at hdone
        cases hdone
        exact hlast hsaw
      · exact (hcounted.climbs done hdone hsaw).le
    · intro done hdone
      exact counter_le_total hcounted hdone
    · intro hreturned
      exact hcounted.full (hlaws.sender.sawComplete_of_returnedOk hreturned)

/-- A step keeps the counter, or takes the head of the reports. -/
theorem counter_next (hlaws : kind.Laws setting)
    (hcounter : CounterLaws kind.sender kind.awaiting setting.manifest counter)
    (hsound : Sound kind setting s) (hcounted : Counted kind counter setting s)
    {event : NetworkEvent} (hnext : next kind setting s event = some t) :
    (event ≠ .senderHears ∧ s.delivered <+: t.delivered ∧
        counter t.sender = counter s.sender ∧
        (kind.sender.sawComplete t.sender ↔
          kind.sender.sawComplete s.sender)) ∨
      ∃ message, event = .senderHears ∧ s.reports.head? = some message ∧
        t.delivered = s.delivered ∧
        (counter s.sender = none ∧ message ≠ .complete ∧
            ¬ kind.sender.sawComplete t.sender ∨
          ∃ done, counter s.sender = some done ∧
            ¬ kind.sender.sawComplete s.sender ∧
            (kind.sender.sawComplete t.sender ↔ message = .complete) ∧
            counter t.sender =
              some (doneAfter setting.manifest.totalSize done message)) := by
  cases event with
  | sender event =>
      simp only [next] at hnext
      split at hnext
      next hregular =>
        obtain ⟨⟨sender, output⟩, hstep, rfl⟩ :=
          Option.map_eq_some_iff.mp hnext
        have hkeeps := sender_keeps hlaws hcounter hsound hregular hstep
        rw [emit_sender, emit_delivered]
        exact Or.inl ⟨by simp, List.prefix_rfl, hkeeps⟩
      next => contradiction
  | senderHears =>
      simp only [next] at hnext
      split at hnext
      next message reports hreports =>
        obtain ⟨⟨sender, output⟩, hstep, rfl⟩ :=
          Option.map_eq_some_iff.mp hnext
        have hhead : s.reports.head? = some message := by
          rw [hreports]
          rfl
        rw [emit_sender, emit_delivered]
        refine Or.inr ⟨message, rfl, hhead, rfl, ?_⟩
        obtain ⟨hnone, hne, hquiet, _, _⟩ | hrunning :=
          hears_counter hlaws hcounter hsound hcounted hreports hstep
        · exact Or.inl ⟨hnone, hne, hquiet⟩
        · exact Or.inr hrunning
      next => contradiction
  | receiverProceeds =>
      simp only [next] at hnext
      split at hnext
      next => contradiction
      next =>
        obtain ⟨⟨receiver, output⟩, _, rfl⟩ := Option.map_eq_some_iff.mp hnext
        exact Or.inl ⟨by simp, List.prefix_append _ _, rfl, Iff.rfl⟩
  | receiverHears =>
      simp only [next] at hnext
      split at hnext
      next =>
        obtain ⟨receiver, _, rfl⟩ := Option.map_eq_some_iff.mp hnext
        exact Or.inl ⟨by simp, List.prefix_rfl, rfl, Iff.rfl⟩
      next =>
        obtain ⟨receiver, _, rfl⟩ := Option.map_eq_some_iff.mp hnext
        exact Or.inl ⟨by simp, List.prefix_rfl, rfl, Iff.rfl⟩
      next => contradiction
  | receiverLooksUp =>
      obtain ⟨receiver, _, rfl⟩ := Option.map_eq_some_iff.mp hnext
      exact Or.inl ⟨by simp, List.prefix_rfl, rfl, Iff.rfl⟩
  | receiverReads =>
      simp only [next] at hnext
      split at hnext
      next =>
        obtain ⟨receiver, _, rfl⟩ := Option.map_eq_some_iff.mp hnext
        exact Or.inl ⟨by simp, List.prefix_rfl, rfl, Iff.rfl⟩
      next =>
        obtain ⟨receiver, _, rfl⟩ := Option.map_eq_some_iff.mp hnext
        exact Or.inl ⟨by simp, List.prefix_rfl, rfl, Iff.rfl⟩
      next => contradiction
  | corrupt stream position subs =>
      obtain ⟨item, _, hresult⟩ := Option.bind_eq_some_iff.mp hnext
      obtain ⟨item', _, rfl⟩ := Option.map_eq_some_iff.mp hresult
      exact Or.inl ⟨by simp, List.prefix_rfl, rfl, Iff.rfl⟩

/-- What was accepted stays accepted. -/
theorem accepted_mono {few many : List ℕ} (hmore : few <+: many) :
    setting.accepted few ⊆ setting.accepted many := by
  apply Finset.union_subset_union_right
  intro index hindex
  exact List.mem_toFinset.mpr (hmore.subset (List.mem_toFinset.mp hindex))

theorem grows_next (hlaws : kind.Laws setting)
    (hcounter : CounterLaws kind.sender kind.awaiting setting.manifest counter)
    (hsound : Sound kind setting s) (hcounted : Counted kind counter setting s)
    {event : NetworkEvent} (hnext : next kind setting s event = some t) :
    Grows counter t s := by
  intro done hdone
  obtain ⟨_, _, hsame, _⟩ | ⟨message, _, hhead, _, hmessage⟩ :=
    counter_next hlaws hcounter hsound hcounted hnext
  · rw [hsame]
    exact ⟨done, hdone, Nat.le_refl done⟩
  · obtain ⟨hnone, _⟩ | ⟨before, hbefore, hquiet, _, hafter⟩ := hmessage
    · rw [hdone] at hnone
      cases hnone
    · rw [hdone] at hbefore
      cases hbefore
      refine ⟨_, hafter, ?_⟩
      obtain ⟨rest, hreports⟩ := List.head?_eq_some_iff.mp hhead
      have hclimbs := hcounted.climbs done hdone hquiet
      rw [hreports] at hclimbs
      by_cases hcomplete : message = .complete
      · rw [hcomplete]
        exact counter_le_total hcounted hdone
      · exact (hclimbs.tail hcomplete).1

theorem Grows.trans {first middle last : Network Sender Loop}
    (hlate : Grows counter last middle) (hearly : Grows counter middle first) :
    Grows counter last first := by
  intro done hdone
  obtain ⟨between, hbetween, hle⟩ := hearly done hdone
  obtain ⟨after, hafter, hle'⟩ := hlate between hbetween
  exact ⟨after, hafter, hle.trans hle'⟩

/-- The counter is above what was accepted from when the sender hears a
`Complete` that does not stand for the whole file. -/
theorem counterRight_next (hlaws : kind.Laws setting)
    (hcount : CountLaws kind)
    (hcounter : CounterLaws kind.sender kind.awaiting setting.manifest counter)
    (hsound : Sound kind setting s) (hcounted : Counted kind counter setting s)
    {event : NetworkEvent} (hright : CounterRight kind counter setting s)
    (hnext : next kind setting s event = some t) :
    CounterRight kind counter setting t ↔
      (HearsComplete s event →
        setting.manifestSource.totalSize ≤ (2 ^ 32 - 1) * 8388608) := by
  have hafter := counted_next hlaws hcount hcounter hsound hcounted hnext
  rw [counterRight_iff hlaws hcounted] at hright
  rw [counterRight_iff hlaws hafter]
  obtain ⟨hevent, hmore, _, hsaw⟩ | ⟨message, hevent, hhead, hsame, hmessage⟩ :=
    counter_next hlaws hcounter hsound hcounted hnext
  · have hright' : kind.sender.sawComplete t.sender →
        setting.manifest.totalSize ≤ setting.acceptedBytes t.delivered := by
      intro hlast
      exact (hright (hsaw.mp hlast)).trans
        (setting.bytesOf_mono (accepted_mono hmore))
    exact iff_of_true hright' fun hhears => absurd hhears.1 hevent
  · have hlast : kind.sender.sawComplete t.sender ↔ message = .complete := by
      obtain ⟨_, hne, hquiet⟩ | ⟨_, _, _, hlast, _⟩ := hmessage
      · exact iff_of_false hquiet hne
      · exact hlast
    have hhears : HearsComplete s event ↔ message = .complete := by
      unfold HearsComplete
      rw [hhead]
      simp [hevent]
    rw [hlast, hhears, hsame]
    apply imp_congr_right
    intro hcomplete
    have hall : setting.accepted s.delivered = setting.allChunks := by
      apply hcounted.all
      rw [← hcomplete]
      exact List.mem_of_mem_head? hhead
    unfold NetworkSetting.acceptedBytes
    rw [hall]
    exact setting.totalSize_le_bytesOf_iff

/-- What holds of the counter over an execution, which lists the states it
visits from the last one back. -/
structure ProgressRight (kind : NetworkKind Sender Loop)
    (counter : Sender → Option ℕ) (setting : NetworkSetting)
    (history : List (Network Sender Loop × NetworkEvent))
    (s : Network Sender Loop) : Prop where
  visited : Machine.Throughout (CounterRight kind counter setting) history s
  grows : (s :: history.map Prod.fst).Pairwise (Grows counter)

theorem grows_of_execution (hlaws : kind.Laws setting)
    (hcount : CountLaws kind)
    (hcounter : CounterLaws kind.sender kind.awaiting setting.manifest counter)
    (hinside : setting.haveChunks ⊆ setting.allChunks)
    {history : List (Network Sender Loop × NetworkEvent)}
    (hexec : (machine kind setting).Execution history s) :
    (s :: history.map Prod.fst).Pairwise (Grows counter) := by
  induction hexec with
  | start _ => exact List.pairwise_singleton _ _
  | @step history u v event hbefore hnext ih =>
      have hreach := hbefore.reachable
      have hstep : Grows counter v u := grows_next hlaws hcounter
        (sound_of_reachable hlaws hreach)
        (counted_of_reachable hlaws hcount hcounter hinside hreach) hnext
      rw [List.map_cons, List.pairwise_cons]
      refine ⟨?_, ih⟩
      intro earlier hearlier
      obtain rfl | hearlier := List.mem_cons.mp hearlier
      · exact hstep
      · exact hstep.trans ((List.pairwise_cons.mp ih).1 earlier hearlier)

theorem progressRight_iff (hlaws : kind.Laws setting) (hcount : CountLaws kind)
    (hcounter : CounterLaws kind.sender kind.awaiting setting.manifest counter)
    (hinside : setting.haveChunks ⊆ setting.allChunks)
    {history : List (Network Sender Loop × NetworkEvent)}
    (hexec : (machine kind setting).Execution history s) :
    ProgressRight kind counter setting history s ↔
      ∀ entry ∈ history, HearsComplete entry.1 entry.2 →
        setting.manifestSource.totalSize ≤ (2 ^ 32 - 1) * 8388608 := by
  have hstart : ∀ s₀, (machine kind setting).start s₀ →
      CounterRight kind counter setting s₀ := by
    intro s₀ hstarts
    rw [counterRight_iff hlaws
      (counted_of_starts hcounter hlaws.firstSetup hinside hstarts)]
    intro hsaw
    rw [hstarts.sender] at hsaw
    exact absurd hsaw (not_saw_of_none hcounter hcounter.start_none)
  have hstep : ∀ u event v, (machine kind setting).Reachable u →
      CounterRight kind counter setting u →
      (machine kind setting).next u event = some v →
      (CounterRight kind counter setting v ↔
        (HearsComplete u event →
          setting.manifestSource.totalSize ≤ (2 ^ 32 - 1) * 8388608)) := by
    intro u event v hreach hright hnext
    exact counterRight_next hlaws hcount hcounter
      (sound_of_reachable hlaws hreach)
      (counted_of_reachable hlaws hcount hcounter hinside hreach) hright hnext
  rw [← hexec.throughout_iff hstart hstep]
  constructor
  · intro hprogress
    exact hprogress.visited
  · intro hvisited
    exact ⟨hvisited,
      grows_of_execution hlaws hcount hcounter hinside hexec⟩

end Network

/-! ## Honest transfers -/

/-- The receiver has no saved state of this manifest, or one that an honest
transfer of the same manifest has kept on the way. -/
inductive Honest : NetworkSetting → Prop
  | fresh {setting : NetworkSetting} : setting.found = none → Honest setting
  | afterDirect {earlier setting : NetworkSetting}
      {s : Network DirectSender DirectLoop} {loop : DirectLoop} :
      Honest earlier → earlier.manifest = setting.manifest →
      (Network.machine directNetwork earlier).Reachable s →
      s.receiver = .loop loop → setting.found = some loop.books.state →
      Honest setting
  | afterRelay {earlier setting : NetworkSetting}
      {s : Network RelaySender RelayLoop} {loop : RelayLoop} :
      Honest earlier → earlier.manifest = setting.manifest →
      (Network.machine relayNetwork earlier).Reachable s →
      s.receiver = .loop loop → setting.found = some loop.books.state →
      Honest setting

namespace NetworkSetting

variable {setting : NetworkSetting}

theorem haveChunks_of_found {state : TransferState}
    (hfound : setting.found = some state) :
    setting.haveChunks = state.chunksDone := by
  unfold haveChunks
  rw [hfound]

theorem allChunks_of_manifest_eq {earlier : NetworkSetting}
    (hsame : earlier.manifest = setting.manifest) :
    earlier.allChunks = setting.allChunks := by
  unfold allChunks
  rw [hsame]

end NetworkSetting

/-- The chunks of a loop are chunks of the file. -/
theorem Network.loop_inside {Sender Loop : Type}
    {kind : NetworkKind Sender Loop} {counter : Sender → Option ℕ}
    {setting : NetworkSetting} {s : Network Sender Loop} {loop : Loop}
    (hcounted : Counted kind counter setting s)
    (hloop : s.receiver = .loop loop) :
    (kind.loop.books loop).state.chunksDone ⊆ setting.allChunks := by
  have hreceiver := hcounted.receiver
  rw [hloop] at hreceiver
  have hcounts : LoopCounted kind setting s.delivered loop := hreceiver
  rw [hcounts.done]
  exact hcounted.inside

theorem Honest.inside {setting : NetworkSetting} (hhonest : Honest setting) :
    setting.haveChunks ⊆ setting.allChunks := by
  induction hhonest with
  | @fresh setting hnone =>
      have hempty : setting.haveChunks = ∅ := by
        unfold NetworkSetting.haveChunks
        rw [hnone]
      rw [hempty]
      exact Finset.empty_subset _
  | @afterDirect earlier setting s loop _ hsame hreach hloop hfound ih =>
      have hcounted := Network.counted_of_reachable
        (directNetwork_laws earlier) directCount_laws
        (directCounter_laws earlier.manifest) ih hreach
      rw [NetworkSetting.haveChunks_of_found hfound,
        ← NetworkSetting.allChunks_of_manifest_eq hsame]
      exact Network.loop_inside hcounted hloop
  | @afterRelay earlier setting s loop _ hsame hreach hloop hfound ih =>
      have hcounted := Network.counted_of_reachable
        (relayNetwork_laws earlier) relayCount_laws
        (relayCounter_laws earlier.manifest) ih hreach
      rw [NetworkSetting.haveChunks_of_found hfound,
        ← NetworkSetting.allChunks_of_manifest_eq hsame]
      exact Network.loop_inside hcounted hloop

/-- The counter of the sender climbs to the total and stays below what the
receiver accepted exactly in the executions that hear `Complete` only for files
whose chunks can be counted in 32 bits. -/
theorem sender_progress_iff {setting : NetworkSetting}
    (hhonest : Honest setting) :
    (∀ history s,
      (Network.machine directNetwork setting).Execution history s →
      (Network.ProgressRight directNetwork
          (DirectSender.bytesDone? setting.manifest) setting history s ↔
        ∀ entry ∈ history, entry.1.HearsComplete entry.2 →
          setting.manifestSource.totalSize ≤ (2 ^ 32 - 1) * 8388608)) ∧
    ∀ history s,
      (Network.machine relayNetwork setting).Execution history s →
      (Network.ProgressRight relayNetwork
          (RelaySender.bytesDone? setting.manifest) setting history s ↔
        ∀ entry ∈ history, entry.1.HearsComplete entry.2 →
          setting.manifestSource.totalSize ≤ (2 ^ 32 - 1) * 8388608) := by
  constructor
  · intro history s hexec
    exact Network.progressRight_iff (directNetwork_laws setting)
      directCount_laws (directCounter_laws setting.manifest) hhonest.inside hexec
  · intro history s hexec
    exact Network.progressRight_iff (relayNetwork_laws setting)
      relayCount_laws (relayCounter_laws setting.manifest) hhonest.inside hexec

theorem sender_progress_sample : fifoSetting.found = none ∧
    ∀ history s,
      (Network.machine relayNetwork fifoSetting).Execution history s →
      Network.ProgressRight relayNetwork
        (RelaySender.bytesDone? fifoSetting.manifest) fifoSetting history s := by
  have hnone : fifoSetting.found = none := by decide +kernel
  refine ⟨hnone, ?_⟩
  intro history s hexec
  apply ((sender_progress_iff (Honest.fresh hnone)).2 history s hexec).mpr
  intro _ _ _
  decide +kernel

/-! ## A file without chunks

The chunks of the widest file are counted as none, so that its receiver reports
`Complete` at once. -/

def widestSetting : NetworkSetting where
  noise := lookupNoise
  read := tagRead
  msgPack := rmpSerde
  manifestSource := widestSource
  outputDir := ['d']
  pathExists := fun _ => false
  files := fun _ => .absent
  resumes := by
    intro state hfound
    simp [findResumable] at hfound

def completedEmpty : Option (Network RelaySender RelayLoop) :=
  (Network.machine relayNetwork widestSetting).runFrom
    (Network.fresh relayNetwork)
    ([.sender .proceed, .receiverHears, .receiverLooksUp] ++
      List.replicate 8 .receiverProceeds ++ [.senderHears, .senderHears])

/-- The sender shows the whole file while the receiver has accepted nothing. -/
theorem progress_beyond_accepted :
    ¬ ∀ setting, Honest setting →
      (∀ history s,
        (Network.machine directNetwork setting).Execution history s →
        Network.ProgressRight directNetwork
          (DirectSender.bytesDone? setting.manifest) setting history s) ∧
      ∀ history s,
        (Network.machine relayNetwork setting).Execution history s →
        Network.ProgressRight relayNetwork
          (RelaySender.bytesDone? setting.manifest) setting history s := by
  intro hclaim
  have hnone : widestSetting.found = none := by decide +kernel
  have hlast : completedEmpty.map (fun s =>
      (RelaySender.bytesDone? widestSetting.manifest s.sender,
        widestSetting.acceptedBytes s.delivered)) = some (some (2 ^ 55), 0) := by
    decide +kernel
  obtain ⟨s, hrun, hvalues⟩ := Option.map_eq_some_iff.mp hlast
  rw [Prod.mk.injEq] at hvalues
  obtain ⟨hcounter, haccepted⟩ := hvalues
  obtain ⟨history, hexec⟩ := (Machine.Reachable.of_runFrom
    (Network.starts_fresh relayNetwork) hrun).execution
  have hprogress :=
    (hclaim widestSetting (Honest.fresh hnone)).2 history s hexec
  have hle := hprogress.visited.1.accepted _ hcounter
  rw [haccepted] at hle
  exact absurd hle (by norm_num)

end P2pShare
