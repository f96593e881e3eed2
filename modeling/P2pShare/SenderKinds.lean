import P2pShare.Sender

/-!
# What the two senders have in common

A view of a sender that forgets how it schedules its work, the laws a view has
to satisfy, and the proofs that the direct and the relay sender satisfy them.
A property that rests on the laws alone is proved once for both kinds.
-/

namespace P2pShare

open ByteStream

/-! ## Views of a sender -/

/-- `replied`: a reply to the manifest was accepted.  `holds`: a chunk was read
and is still in memory.  `sawComplete`: the control loop has ended well. -/
structure SenderKind (Sender : Type) where
  start : Sender
  step : FileManifest → Sender → SenderEvent → Option (Sender × SenderOutput)
  replied : Sender → Prop
  holds : Sender → ℕ → Bytes → Prop
  sawComplete : Sender → Prop
  returnedOk : Sender → Prop

def SenderEvent.file? : SenderEvent → Option Bytes
  | .read file | .ctrlRead file => some file
  | _ => none

namespace SenderKind

variable {Sender : Type}

/-- A chunk that is in memory, or that the step reads. -/
def Available (kind : SenderKind Sender) (manifest : FileManifest)
    (sender : Sender) (event : SenderEvent) (index : ℕ)
    (plaintext : Bytes) : Prop :=
  kind.holds sender index plaintext ∨
    ∃ file, event.file? = some file ∧
      readChunk file manifest index = some plaintext

structure StepFacts (kind : SenderKind Sender) (manifest : FileManifest)
    (sender : Sender) (event : SenderEvent) (next : Sender)
    (output : SenderOutput) : Prop where
  ne_start : next ≠ kind.start
  ctrl : ∀ message, output = .ctrl message →
    sender = kind.start ∧ message = .manifest manifest
  holds : ∀ index plaintext, kind.holds next index plaintext →
    kind.Available manifest sender event index plaintext
  sealing : ∀ index plaintext, output = .sealChunk index plaintext →
    kind.Available manifest sender event index plaintext ∧
      kind.replied sender
  replied : kind.replied next →
    kind.replied sender ∨ ∃ message, event = .received (.ok message)
  sawComplete : kind.sawComplete next →
    kind.sawComplete sender ∨ event = .received (.ok .complete)

structure Laws (kind : SenderKind Sender) (manifest : FileManifest) :
    Prop where
  start_not_replied : ¬ kind.replied kind.start
  start_not_sawComplete : ¬ kind.sawComplete kind.start
  start_holds : ∀ index plaintext, ¬ kind.holds kind.start index plaintext
  sawComplete_of_returnedOk : ∀ {sender},
    kind.returnedOk sender → kind.sawComplete sender
  stepFacts_of_step : ∀ {sender event next output},
    kind.step manifest sender event = some (next, output) →
      kind.StepFacts manifest sender event next output

/-- What a sender is once it has returned an error. -/
structure Dead (kind : SenderKind Sender) (sender : Sender) : Prop where
  ne_start : sender ≠ kind.start
  not_replied : ¬ kind.replied sender
  not_holds : ∀ index plaintext, ¬ kind.holds sender index plaintext
  not_sawComplete : ¬ kind.sawComplete sender

variable {kind : SenderKind Sender} {manifest : FileManifest}
  {sender next : Sender} {output : SenderOutput}

theorem Dead.stepFacts (hdead : kind.Dead next) (event : SenderEvent) :
    kind.StepFacts manifest sender event next .none where
  ne_start := hdead.ne_start
  ctrl := by simp
  holds := fun index plaintext hholds =>
    absurd hholds (hdead.not_holds index plaintext)
  sealing := by simp
  replied := fun hreplied => absurd hreplied hdead.not_replied
  sawComplete := fun hsaw => absurd hsaw hdead.not_sawComplete

/-- An await that fails after its effect has the output of one that ends. -/
theorem Dead.stepFacts_of_proceed {proceeded : Sender} (hdead : kind.Dead next)
    (hfacts : kind.StepFacts manifest sender .proceed proceeded output)
    (event : SenderEvent) :
    kind.StepFacts manifest sender event next output where
  ne_start := hdead.ne_start
  ctrl := hfacts.ctrl
  holds := fun index plaintext hholds =>
    absurd hholds (hdead.not_holds index plaintext)
  sealing := by
    intro index plaintext houtput
    rcases hfacts.sealing index plaintext houtput with ⟨havailable, hreplied⟩
    rcases havailable with hholds | ⟨file, hfile, _⟩
    · exact ⟨Or.inl hholds, hreplied⟩
    · contradiction
  replied := fun hreplied => absurd hreplied hdead.not_replied
  sawComplete := fun hsaw => absurd hsaw hdead.not_sawComplete

end SenderKind

/-! ## The direct sender -/

namespace Transfer

def Holds (state : Transfer) (index : ℕ) (plaintext : Bytes) : Prop :=
  (state.buffer = some plaintext ∧ state.todo.head? = some index) ∨
    (∃ reading, state.pc = .joining (some (index, plaintext)) reading) ∨
    ∃ serving, state.pc = .resend index plaintext serving

theorem holds_of_proceed {state next : Transfer} {output : SenderOutput}
    (hproceed : state.proceed = some (next, output)) :
    (∀ index plaintext, next.Holds index plaintext →
        state.Holds index plaintext) ∧
      (∀ message, output ≠ .ctrl message) ∧
      (∀ index plaintext, output = .sealChunk index plaintext →
        state.Holds index plaintext) ∧
      next.ctrlDone = state.ctrlDone := by
  unfold proceed at hproceed
  split at hproceed
  next hpc =>
    split at hproceed
    · cases hproceed
      simp [Holds, hpc]
    · contradiction
  next hpc =>
    split at hproceed
    next index rest plaintext htodo hbuffer =>
      cases hproceed
      simp [Holds, htodo, hbuffer]
    next => contradiction
  next index plaintext reading hpc =>
    cases hproceed
    refine ⟨?_, by simp, by simp, rfl⟩
    intro other bytes hholds
    unfold joined at hholds
    rcases hholds with hbuffer | ⟨_, hjoining⟩ | ⟨_, hresend⟩
    · exact Or.inl hbuffer
    · split at hjoining <;> simp at hjoining
    · split at hresend <;> simp at hresend
  next => contradiction
  next hpc =>
    split at hproceed
    next index rest hnacks =>
      cases hproceed
      simp [Holds, hpc]
    next hnacks =>
      cases hproceed
      simp only [Holds, hpc]
      split <;> simp
  next index plaintext serving hpc =>
    cases hproceed
    refine ⟨?_, by simp, by simp, rfl⟩
    intro other bytes hholds
    unfold afterSend at hholds
    rcases hholds with hbuffer | ⟨_, hjoining⟩ | ⟨_, hresend⟩
    · exact Or.inl hbuffer
    · split at hjoining <;> simp at hjoining
    · split at hresend <;> simp at hresend
  next hpc =>
    split at hproceed
    next index rest hnacks =>
      cases hproceed
      simp [Holds, hpc]
    next hnacks =>
      split at hproceed
      · cases hproceed
        simp [Holds, hpc]
      · contradiction
  next => contradiction
  next => contradiction

theorem holds_of_afterRead {state : Transfer} {index : ℕ} {plaintext : Bytes}
    (hreading : state.reading? = some index) :
    (∀ other bytes, (state.afterRead plaintext).1.Holds other bytes →
        state.Holds other bytes ∨ other = index ∧ bytes = plaintext) ∧
      (∀ message, (state.afterRead plaintext).2 ≠ .ctrl message) ∧
      (∀ other bytes,
        (state.afterRead plaintext).2 = .sealChunk other bytes →
          other = index ∧ bytes = plaintext) ∧
      (state.afterRead plaintext).1.ctrlDone = state.ctrlDone := by
  unfold reading? at hreading
  split at hreading
  next hpc =>
    simp only [afterRead, hpc, Holds, hreading]
    simp [eq_comm]
  next frame hpc =>
    simp only [afterRead, hpc]
    refine ⟨?_, by simp, by simp, by simp⟩
    intro other bytes hholds
    unfold joined at hholds
    rcases hholds with ⟨hbuffer, htodo⟩ | ⟨_, hjoining⟩ | ⟨_, hresend⟩
    · simp only [Option.some.injEq] at hbuffer htodo
      rw [hreading, Option.some.injEq] at htodo
      exact Or.inr ⟨htodo.symm, hbuffer.symm⟩
    · split at hjoining
      · contradiction
      · simp only [SendPc.joining.injEq] at hjoining
        rw [hjoining.1] at hpc
        exact Or.inl (Or.inr (Or.inl ⟨_, hpc⟩))
    · split at hresend <;> simp at hresend
  next index' serving hpc =>
    simp only [Option.some.injEq] at hreading
    subst index'
    simp only [afterRead, hpc]
    refine ⟨?_, by simp, by simp [eq_comm], trivial⟩
    intro other bytes hholds
    rcases hholds with hbuffer | ⟨_, hjoining⟩ | ⟨_, hresend⟩
    · exact Or.inl (Or.inl hbuffer)
    · simp at hjoining
    · simp only [SendPc.resend.injEq] at hresend
      exact Or.inr ⟨hresend.1.symm, hresend.2.1.symm⟩
  next => contradiction

theorem ctrlMessage_ok {manifest : FileManifest} {state next : Transfer}
    {result : Except Error ControlMessage}
    (hmessage : ctrlMessage manifest state result = .ok next) :
    ∃ message, result = .ok message ∧
      (∀ index plaintext, next.Holds index plaintext →
        state.Holds index plaintext) ∧
      (next.ctrlDone = true →
        state.ctrlDone = true ∨ message = .complete) := by
  cases result with
  | error error => contradiction
  | ok message =>
      refine ⟨message, rfl, ?_⟩
      cases message <;> cases hmessage <;> simp [Holds]

end Transfer

namespace DirectSender

def Replied : DirectSender → Prop
  | openUni _ | transfer _ | returned _ => True
  | openBi | awaitReply | failed _ => False

def Holds : DirectSender → ℕ → Bytes → Prop
  | transfer state => state.Holds
  | _ => fun _ _ => False

def SawComplete : DirectSender → Prop
  | transfer state => state.ctrlDone = true
  | returned _ => True
  | _ => False

def ReturnedOk (sender : DirectSender) : Prop :=
  ∃ bytesDone, sender = returned bytesDone

end DirectSender

def directSenderKind : SenderKind DirectSender where
  start := .openBi
  step := DirectSender.step
  replied := DirectSender.Replied
  holds := DirectSender.Holds
  sawComplete := DirectSender.SawComplete
  returnedOk := DirectSender.ReturnedOk

namespace DirectSender

variable {manifest : FileManifest} {sender next : DirectSender}
  {output : SenderOutput}

theorem failed_dead (error : Error) : directSenderKind.Dead (failed error) where
  ne_start := by simp [directSenderKind]
  not_replied := id
  not_holds := fun _ _ => id
  not_sawComplete := id

theorem stepFacts_of_proceed
    (hproceed : sender.proceed manifest = some (next, output)) :
    directSenderKind.StepFacts manifest sender .proceed next output := by
  cases sender with
  | openBi =>
      cases hproceed
      constructor <;>
        simp [directSenderKind, Holds, Replied, SawComplete]
  | awaitReply => contradiction
  | openUni skip =>
      cases hproceed
      constructor <;>
        simp [directSenderKind, Holds, Replied, SawComplete, Transfer.start,
          Transfer.Holds]
  | transfer state =>
      simp only [proceed] at hproceed
      split at hproceed
      next hdone =>
        cases hproceed
        constructor <;>
          simp [directSenderKind, Holds, Replied, SawComplete, hdone.2]
      next =>
        rcases Option.map_eq_some_iff.mp hproceed with
          ⟨⟨state', output'⟩, hstep, hresult⟩
        cases hresult
        rcases Transfer.holds_of_proceed hstep with ⟨hholds, hctrl, hseal, hdone⟩
        constructor
        · simp [directSenderKind]
        · intro message houtput
          exact absurd houtput (hctrl message)
        · intro index plaintext hnext
          exact Or.inl (hholds index plaintext hnext)
        · intro index plaintext houtput
          exact ⟨Or.inl (hseal index plaintext houtput), trivial⟩
        · intro _
          exact Or.inl trivial
        · intro hsaw
          exact Or.inl (hdone.symm.trans hsaw)
  | returned => contradiction
  | failed => contradiction

theorem stepFacts_of_read {file : Bytes}
    (hread : sender.read manifest file = some (next, output)) :
    directSenderKind.StepFacts manifest sender (.read file) next output := by
  cases sender with
  | transfer state =>
      rcases Option.map_eq_some_iff.mp hread with ⟨index, hreading, hresult⟩
      split at hresult
      next =>
        cases hresult
        exact (failed_dead .io).stepFacts _
      next plaintext hchunk =>
        cases hresult
        rcases Transfer.holds_of_afterRead hreading with
          ⟨hholds, hctrl, hseal, hdone⟩
        constructor
        · simp [directSenderKind]
        · intro message houtput
          exact absurd houtput (hctrl message)
        · intro other bytes hnext
          rcases hholds other bytes hnext with hbefore | ⟨rfl, rfl⟩
          · exact Or.inl hbefore
          · exact Or.inr ⟨file, rfl, hchunk⟩
        · intro other bytes houtput
          rcases hseal other bytes houtput with ⟨rfl, rfl⟩
          exact ⟨Or.inr ⟨file, rfl, hchunk⟩, trivial⟩
        · intro _
          exact Or.inl trivial
        · intro hsaw
          exact Or.inl (hdone.symm.trans hsaw)
  | openBi => contradiction
  | awaitReply => contradiction
  | openUni skip => contradiction
  | returned bytesDone => contradiction
  | failed error => contradiction

theorem stepFacts_of_received {result : Except Error ControlMessage}
    (hreceived : sender.received manifest result = some next) :
    directSenderKind.StepFacts manifest sender (.received result) next
      .none := by
  cases sender with
  | awaitReply =>
      simp only [received] at hreceived
      split at hreceived
      next skip hskip =>
        cases hreceived
        have hok : ∃ message, result = .ok message := by
          cases result with
          | ok message => exact ⟨message, rfl⟩
          | error error => contradiction
        constructor <;>
          simp [directSenderKind, Holds, Replied, SawComplete, hok]
      next error _ =>
        cases hreceived
        exact (failed_dead error).stepFacts _
  | transfer state =>
      simp only [received] at hreceived
      split at hreceived
      · contradiction
      · split at hreceived
        next state' hmessage =>
          cases hreceived
          rcases Transfer.ctrlMessage_ok hmessage with
            ⟨message, rfl, hholds, hdone⟩
          constructor
          · simp [directSenderKind]
          · simp
          · intro index plaintext hnext
            exact Or.inl (hholds index plaintext hnext)
          · simp
          · intro _
            exact Or.inl trivial
          · intro hsaw
            rcases hdone hsaw with hbefore | rfl
            · exact Or.inl hbefore
            · exact Or.inr rfl
        next error _ =>
          cases hreceived
          exact (failed_dead error).stepFacts _
  | openBi => contradiction
  | openUni skip => contradiction
  | returned bytesDone => contradiction
  | failed error => contradiction

theorem stepFacts_of_fail {error : Error} {effect : Bool}
    (hfail : sender.fail manifest error effect = some (next, output)) :
    directSenderKind.StepFacts manifest sender (.fail error effect) next
      output := by
  unfold fail at hfail
  split at hfail
  · contradiction
  · contradiction
  · split at hfail
    next proceeded output' hproceed =>
      cases hfail
      have hfacts := stepFacts_of_proceed hproceed
      exact (failed_dead error).stepFacts_of_proceed hfacts _
    next =>
      cases hfail
      exact (failed_dead error).stepFacts _

end DirectSender

theorem directSenderKind_laws (manifest : FileManifest) :
    directSenderKind.Laws manifest where
  start_not_replied := id
  start_not_sawComplete := id
  start_holds := fun _ _ => id
  sawComplete_of_returnedOk := by
    rintro sender ⟨bytesDone, rfl⟩
    trivial
  stepFacts_of_step := by
    intro sender event next output hstep
    cases event with
    | proceed => exact DirectSender.stepFacts_of_proceed hstep
    | received result =>
        rcases Option.map_eq_some_iff.mp hstep with ⟨next', hreceived, hresult⟩
        cases hresult
        exact DirectSender.stepFacts_of_received hreceived
    | read file => exact DirectSender.stepFacts_of_read hstep
    | ctrlProceed => contradiction
    | ctrlRead file => contradiction
    | fail error effect => exact DirectSender.stepFacts_of_fail hstep

/-! ## The relay sender -/

def Worker.Holds (worker : Worker) (index : ℕ) (plaintext : Bytes) : Prop :=
  worker = .writing index plaintext

theorem Worker.write_eq_some {worker next : Worker} {output : SenderOutput}
    (hwrite : worker.write = some (next, output)) :
    ∃ index plaintext, worker = .writing index plaintext ∧ next = .idle ∧
      output = .frame index plaintext := by
  unfold Worker.write at hwrite
  split at hwrite
  next index plaintext =>
    cases hwrite
    exact ⟨index, plaintext, rfl, rfl, rfl⟩
  next => contradiction

theorem Worker.read_eq_some {manifest : FileManifest} {file : Bytes}
    {worker : Worker} {outcome : Option (Worker × SenderOutput)}
    (hread : worker.read manifest file = some outcome) :
    ∃ index, worker = .reading index ∧
      outcome = (readChunk file manifest index).map fun plaintext =>
        (.writing index plaintext, .sealChunk index plaintext) := by
  unfold Worker.read at hread
  split at hread
  next index =>
    cases hread
    exact ⟨index, rfl, rfl⟩
  next => contradiction

namespace RelaySender

def Replied : RelaySender → Prop
  | transfer _ | returned _ => True
  | greet | awaitReply | failed _ => False

def Holds : RelaySender → ℕ → Bytes → Prop
  | transfer state => fun index plaintext =>
      state.sendWorker.Holds index plaintext ∨
        state.ctrlWorker.Holds index plaintext
  | _ => fun _ _ => False

def SawComplete : RelaySender → Prop
  | transfer state => state.ctrlDone = true
  | returned _ => True
  | _ => False

def ReturnedOk (sender : RelaySender) : Prop :=
  ∃ bytesDone, sender = returned bytesDone

end RelaySender

def relaySenderKind : SenderKind RelaySender where
  start := .greet
  step := RelaySender.step
  replied := RelaySender.Replied
  holds := RelaySender.Holds
  sawComplete := RelaySender.SawComplete
  returnedOk := RelaySender.ReturnedOk

namespace RelaySender

variable {manifest : FileManifest} {sender next : RelaySender}
  {output : SenderOutput}

theorem failed_dead (error : Error) : relaySenderKind.Dead (failed error) where
  ne_start := by simp [relaySenderKind]
  not_replied := id
  not_holds := fun _ _ => id
  not_sawComplete := id

/-- A step of the transfer in which the control loop neither begins nor
ends. -/
theorem stepFacts_of_transfer {state state' : RelayTransfer}
    {event : SenderEvent}
    (hctrl : ∀ message, output ≠ .ctrl message)
    (hholds : ∀ index plaintext, Holds (transfer state') index plaintext →
      relaySenderKind.Available manifest (transfer state) event index
        plaintext)
    (hseal : ∀ index plaintext, output = .sealChunk index plaintext →
      relaySenderKind.Available manifest (transfer state) event index
        plaintext)
    (hdone : state'.ctrlDone = true →
      state.ctrlDone = true ∨ event = .received (.ok .complete)) :
    relaySenderKind.StepFacts manifest (transfer state) event
      (transfer state') output where
  ne_start := by simp [relaySenderKind]
  ctrl := fun message houtput => absurd houtput (hctrl message)
  holds := hholds
  sealing := fun index plaintext houtput =>
    ⟨hseal index plaintext houtput, trivial⟩
  replied := fun _ => Or.inl trivial
  sawComplete := hdone

theorem stepFacts_of_proceed
    (hproceed : sender.proceed manifest = some (next, output)) :
    relaySenderKind.StepFacts manifest sender .proceed next output := by
  cases sender with
  | greet =>
      simp only [proceed] at hproceed
      split at hproceed
      next =>
        cases hproceed
        exact (failed_dead _).stepFacts _
      next =>
        cases hproceed
        constructor <;> simp [relaySenderKind, Holds, Replied, SawComplete]
  | awaitReply => contradiction
  | transfer state =>
      simp only [proceed] at hproceed
      split at hproceed
      next index rest hworker htodo =>
        cases hproceed
        apply stepFacts_of_transfer <;>
          simp [SenderKind.Available, relaySenderKind, Holds, Worker.Holds]
        tauto
      next hworker htodo =>
        split at hproceed
        next hdone =>
          cases hproceed
          constructor <;>
            simp [relaySenderKind, Holds, Replied, SawComplete, hdone]
        next => contradiction
      next =>
        rcases Option.map_eq_some_iff.mp hproceed with
          ⟨⟨worker, output'⟩, hwrite, hresult⟩
        cases hresult
        rcases Worker.write_eq_some hwrite with
          ⟨index, plaintext, hworker, rfl, rfl⟩
        apply stepFacts_of_transfer <;>
          simp [SenderKind.Available, relaySenderKind, Holds, Worker.Holds]
        tauto
  | returned => contradiction
  | failed => contradiction

theorem stepFacts_of_fail {error : Error} {effect : Bool}
    (hfail : sender.fail manifest error effect = some (next, output)) :
    relaySenderKind.StepFacts manifest sender (.fail error effect) next
      output := by
  unfold fail at hfail
  split at hfail
  · contradiction
  · contradiction
  · split at hfail
    next proceeded output' hproceed =>
      cases hfail
      have hfacts := stepFacts_of_proceed hproceed
      exact (failed_dead error).stepFacts_of_proceed hfacts _
    next =>
      cases hfail
      exact (failed_dead error).stepFacts _

/-- `send_one_chunk` has read its chunk, in the loop whose worker `update`
sets. -/
theorem stepFacts_of_afterRead {state : RelayTransfer} {file : Bytes}
    {event : SenderEvent} {worker : Worker}
    {outcome : Option (Worker × SenderOutput)}
    {update : Worker → RelayTransfer}
    (hfile : event.file? = some file)
    (hread : worker.read manifest file = some outcome)
    (hresult : afterRead update outcome = (next, output))
    (hupdate : ∀ worker' index plaintext,
      Holds (transfer (update worker')) index plaintext →
        Holds (transfer state) index plaintext ∨
          worker'.Holds index plaintext)
    (hdone : ∀ worker', (update worker').ctrlDone = state.ctrlDone) :
    relaySenderKind.StepFacts manifest (transfer state) event next output := by
  rcases Worker.read_eq_some hread with ⟨index, _, rfl⟩
  cases hchunk : readChunk file manifest index with
  | none =>
      rw [hchunk] at hresult
      cases hresult
      exact (failed_dead .io).stepFacts _
  | some plaintext =>
      rw [hchunk] at hresult
      cases hresult
      apply stepFacts_of_transfer
      · simp
      · intro other bytes hholds
        rcases hupdate _ other bytes hholds with hbefore | hnew
        · exact Or.inl hbefore
        · cases hnew
          exact Or.inr ⟨file, hfile, hchunk⟩
      · intro other bytes houtput
        cases houtput
        exact Or.inr ⟨file, hfile, hchunk⟩
      · intro hnext
        exact Or.inl ((hdone _).symm.trans hnext)

theorem stepFacts_of_received {result : Except Error ControlMessage}
    (hreceived : sender.received manifest result = some next) :
    relaySenderKind.StepFacts manifest sender (.received result) next
      .none := by
  cases sender with
  | awaitReply =>
      simp only [received] at hreceived
      split at hreceived
      next skip hskip =>
        cases hreceived
        have hok : ∃ message, result = .ok message := by
          cases result with
          | ok message => exact ⟨message, rfl⟩
          | error error => contradiction
        constructor <;>
          simp [relaySenderKind, Holds, Replied, SawComplete, hok,
            RelayTransfer.start, Worker.Holds]
      next error _ =>
        cases hreceived
        exact (failed_dead error).stepFacts _
  | transfer state =>
      simp only [received] at hreceived
      split at hreceived
      next hidle =>
        cases hreceived
        cases result with
        | error error => exact (failed_dead error).stepFacts _
        | ok message =>
            cases message with
            | error code message => exact (failed_dead _).stepFacts _
            | _ =>
                apply stepFacts_of_transfer <;>
                  simp [SenderKind.Available, relaySenderKind, Holds,
                    Worker.Holds]
                all_goals tauto
      next => contradiction
  | greet => contradiction
  | returned bytesDone => contradiction
  | failed error => contradiction

theorem stepFacts_of_step {event : SenderEvent}
    (hstep : sender.step manifest event = some (next, output)) :
    relaySenderKind.StepFacts manifest sender event next output := by
  cases event with
  | proceed => exact stepFacts_of_proceed hstep
  | received result =>
      rcases Option.map_eq_some_iff.mp hstep with ⟨next', hreceived, hresult⟩
      cases hresult
      exact stepFacts_of_received hreceived
  | read file =>
      cases sender with
      | transfer state =>
          rcases Option.map_eq_some_iff.mp hstep with ⟨outcome, hread, hresult⟩
          apply stepFacts_of_afterRead rfl hread hresult
          · intro worker index plaintext hholds
            rcases hholds with hsend | hctrl
            · exact Or.inr hsend
            · exact Or.inl (Or.inr hctrl)
          · intro worker
            rfl
      | _ => contradiction
  | ctrlProceed =>
      cases sender with
      | transfer state =>
          rcases Option.map_eq_some_iff.mp hstep with
            ⟨⟨worker, output'⟩, hwrite, hresult⟩
          cases hresult
          rcases Worker.write_eq_some hwrite with
            ⟨index, plaintext, hworker, rfl, rfl⟩
          apply stepFacts_of_transfer <;>
            simp [SenderKind.Available, relaySenderKind, Holds, Worker.Holds]
          tauto
      | _ => contradiction
  | ctrlRead file =>
      cases sender with
      | transfer state =>
          rcases Option.map_eq_some_iff.mp hstep with ⟨outcome, hread, hresult⟩
          apply stepFacts_of_afterRead rfl hread hresult
          · intro worker index plaintext hholds
            rcases hholds with hsend | hctrl
            · exact Or.inl (Or.inl hsend)
            · exact Or.inr hctrl
          · intro worker
            rfl
      | _ => contradiction
  | fail error effect => exact stepFacts_of_fail hstep

end RelaySender

theorem relaySenderKind_laws (manifest : FileManifest) :
    relaySenderKind.Laws manifest where
  start_not_replied := id
  start_not_sawComplete := id
  start_holds := fun _ _ => id
  sawComplete_of_returnedOk := by
    rintro sender ⟨bytesDone, rfl⟩
    trivial
  stepFacts_of_step := RelaySender.stepFacts_of_step

end P2pShare
