import P2pShare.LoopKinds
import P2pShare.SenderKinds

/-!
# Where the copies of a chunk are

A chunk index that the receiver misses is listed by the sender as still to be
sent, or travels in a frame, or in a NACK, or waits in the sender's queue for
retransmission.  Each party and each stream has its share of these four lists,
and a step of a party moves an index from one list to another.
-/

namespace P2pShare

open ByteStream

structure Copies where
  stillToSend : List ℕ
  inFlight : List ℕ
  nackInFlight : List ℕ
  nackQueued : List ℕ

namespace Copies

def none : Copies := ⟨[], [], [], []⟩

def count (copies : Copies) (index : ℕ) : ℕ :=
  copies.stillToSend.count index + copies.inFlight.count index +
    copies.nackInFlight.count index + copies.nackQueued.count index

def append (left right : Copies) : Copies where
  stillToSend := left.stillToSend ++ right.stillToSend
  inFlight := left.inFlight ++ right.inFlight
  nackInFlight := left.nackInFlight ++ right.nackInFlight
  nackQueued := left.nackQueued ++ right.nackQueued

@[simp] theorem count_none (index : ℕ) : none.count index = 0 := rfl

@[simp] theorem count_append (left right : Copies) (index : ℕ) :
    (left.append right).count index = left.count index + right.count index := by
  simp only [count, append, List.count_append]
  omega

theorem eq_none_of_count {copies : Copies}
    (hcount : ∀ index, copies.count index = 0) : copies = none := by
  have hnil : ∀ indices : List ℕ,
      (∀ index, indices.count index ≤ copies.count index) → indices = [] := by
    intro indices hle
    apply List.eq_nil_iff_forall_not_mem.mpr
    intro index hmem
    have hpos := List.count_pos_iff.mpr hmem
    have hbound := hle index
    rw [hcount index] at hbound
    omega
  have hsend : copies.stillToSend = [] :=
    hnil _ fun index => by unfold count; omega
  have hflight : copies.inFlight = [] :=
    hnil _ fun index => by unfold count; omega
  have hnack : copies.nackInFlight = [] :=
    hnil _ fun index => by unfold count; omega
  have hqueue : copies.nackQueued = [] :=
    hnil _ fun index => by unfold count; omega
  cases copies
  simp_all only [none]

end Copies

/-! ## Messages and frames on a stream -/

/-- The chunks a reply to the manifest makes the sender send. -/
def promised (manifest : FileManifest) (message : ControlMessage) : List ℕ :=
  match replySkip (.ok message) with
  | .ok skip => toSend manifest skip
  | .error _ => []

def nackedBy : ControlMessage → List ℕ
  | .chunkNack index => [index]
  | _ => []

def messageCopies (manifest : FileManifest) (messages : List ControlMessage) :
    Copies where
  stillToSend := messages.flatMap (promised manifest)
  inFlight := []
  nackInFlight := messages.flatMap nackedBy
  nackQueued := []

def frameCopies (indices : List ℕ) : Copies := ⟨[], indices, [], []⟩

/-- The message answers the manifest. -/
def IsReply (message : ControlMessage) : Prop :=
  ∃ skip, replySkip (.ok message) = .ok skip

variable {manifest : FileManifest}

theorem promised_of_not_isReply {message : ControlMessage}
    (hreply : ¬ IsReply message) : promised manifest message = [] := by
  unfold promised
  cases hskip : replySkip (.ok message) with
  | ok skip => exact absurd ⟨skip, hskip⟩ hreply
  | error error => rfl

theorem count_messageCopies_append (left right : List ControlMessage)
    (index : ℕ) :
    (messageCopies manifest (left ++ right)).count index =
      (messageCopies manifest left).count index +
        (messageCopies manifest right).count index := by
  simp only [messageCopies, Copies.count, List.flatMap_append,
    List.count_append, List.count_nil]
  omega

theorem count_messageCopies_cons (message : ControlMessage)
    (messages : List ControlMessage) (index : ℕ) :
    (messageCopies manifest (message :: messages)).count index =
      (messageCopies manifest [message]).count index +
        (messageCopies manifest messages).count index :=
  count_messageCopies_append [message] messages index

@[simp] theorem count_frameCopies (indices : List ℕ) (index : ℕ) :
    (frameCopies indices).count index = indices.count index := by
  simp [frameCopies, Copies.count]

@[simp] theorem count_messageCopies_nil (index : ℕ) :
    (messageCopies manifest []).count index = 0 := rfl

theorem count_messageCopies_chunkNack (nacked index : ℕ) :
    (messageCopies manifest [.chunkNack nacked]).count index =
      [nacked].count index := by
  simp [messageCopies, Copies.count, promised, replySkip, nackedBy]

theorem count_messageCopies_of_quiet {message : ControlMessage}
    (hreply : ¬ IsReply message) (hnack : nackedBy message = [])
    (index : ℕ) :
    (messageCopies manifest [message]).count index = 0 := by
  simp [messageCopies, Copies.count, promised_of_not_isReply hreply, hnack]

theorem count_messageCopies_reply {message : ControlMessage}
    {skip : Finset ℕ} (hreply : replySkip (.ok message) = .ok skip)
    (index : ℕ) :
    (messageCopies manifest [message]).count index =
      (toSend manifest skip).count index := by
  have hnack : nackedBy message = [] := by
    cases message <;> first | rfl | contradiction
  simp [messageCopies, Copies.count, promised, hreply, hnack]

theorem mem_toSend {skip : Finset ℕ} {index : ℕ} :
    index ∈ toSend manifest skip ↔
      index < manifest.chunkCount ∧ index ∉ skip := by
  simp [toSend]

theorem count_toSend (skip : Finset ℕ) (index : ℕ) :
    (toSend manifest skip).count index =
      if index < manifest.chunkCount ∧ index ∉ skip then 1 else 0 := by
  have hnodup : (toSend manifest skip).Nodup :=
    List.nodup_range.filter _
  rw [hnodup.count]
  simp only [mem_toSend]

/-! ## The direct sender -/

/-- The loops of a sender run on a file of this size, and no await fails. -/
def SenderEvent.regular (size : ℕ) : SenderEvent → Bool
  | .proceed | .ctrlProceed => true
  | .read file | .ctrlRead file => file.length == size
  | .received _ | .fail _ _ => false

/-- What an output puts on the data stream. -/
def SenderOutput.sentIndices : SenderOutput → List ℕ
  | .frame index _ => [index]
  | _ => []

namespace Transfer

def beingSent (state : Transfer) : List ℕ :=
  match state.pc with
  | .joining (some (index, _)) _ => [index]
  | .retransmit index _ | .resend index _ _ => [index]
  | _ => []

def copies (state : Transfer) : Copies :=
  ⟨state.todo, state.beingSent, [], state.nacks⟩

def inSecondLoop : SendPc → Bool
  | .serve | .retransmit _ true | .resend _ _ true | .finished => true
  | _ => false

structure Orderly (state : Transfer) : Prop where
  passed : inSecondLoop state.pc = true → state.todo = []
  finished : state.pc = .finished → state.nacks = [] ∧ state.ctrlDone = true

theorem count_copies (state : Transfer) (index : ℕ) :
    state.copies.count index =
      state.todo.count index + state.beingSent.count index +
        state.nacks.count index := by
  simp [copies, Copies.count]

theorem copies_proceed {state next : Transfer} {output : SenderOutput}
    (horderly : state.Orderly)
    (hproceed : state.proceed = some (next, output)) :
    next.Orderly ∧ ∀ index,
      next.copies.count index + output.sentIndices.count index =
        state.copies.count index := by
  have hpassed := horderly.passed
  unfold proceed at hproceed
  simp only [count_copies]
  split at hproceed
  next hpc =>
    split at hproceed
    next htodo =>
      cases hproceed
      refine ⟨⟨fun _ => htodo, by simp⟩, fun index => ?_⟩
      simp [beingSent, hpc, SenderOutput.sentIndices]
    next => contradiction
  next hpc =>
    split at hproceed
    next index rest plaintext htodo hbuffer =>
      cases hproceed
      refine ⟨⟨by simp [inSecondLoop], by simp⟩, fun other => ?_⟩
      simp only [beingSent, hpc, htodo, SenderOutput.sentIndices,
        List.count_cons, List.count_nil]
      omega
    next => contradiction
  next index plaintext reading hpc =>
    cases hproceed
    cases reading with
    | true =>
        refine ⟨⟨by simp [inSecondLoop, joined], by simp [joined]⟩,
          fun other => ?_⟩
        simp only [beingSent, joined, hpc, SenderOutput.sentIndices]
        simp
        omega
    | false =>
        refine ⟨⟨by simp [inSecondLoop, joined], by simp [joined]⟩,
          fun other => ?_⟩
        simp only [beingSent, joined, hpc, SenderOutput.sentIndices]
        simp
        omega
  next => contradiction
  next hpc =>
    split at hproceed
    next index rest hnacks =>
      cases hproceed
      refine ⟨⟨by simp [inSecondLoop], by simp⟩, fun other => ?_⟩
      simp only [beingSent, hpc, hnacks, SenderOutput.sentIndices,
        List.count_cons, List.count_nil]
      omega
    next hnacks =>
      cases hproceed
      by_cases htodo : state.todo = []
      · refine ⟨⟨fun _ => htodo, by simp [htodo]⟩, fun other => ?_⟩
        simp [beingSent, hpc, htodo, SenderOutput.sentIndices]
      · refine ⟨⟨by simp [htodo, inSecondLoop], by simp [htodo]⟩,
          fun other => ?_⟩
        simp [beingSent, hpc, htodo, SenderOutput.sentIndices]
  next index plaintext serving hpc =>
    cases hproceed
    rw [hpc] at hpassed
    cases serving with
    | true =>
        refine ⟨⟨fun _ => hpassed rfl, by simp [afterSend]⟩, fun other => ?_⟩
        simp only [beingSent, afterSend, hpc, SenderOutput.sentIndices]
        simp
        omega
    | false =>
        refine ⟨⟨by simp [afterSend, inSecondLoop], by simp [afterSend]⟩,
          fun other => ?_⟩
        simp only [beingSent, afterSend, hpc, SenderOutput.sentIndices]
        simp
        omega
  next hpc =>
    rw [hpc] at hpassed
    split at hproceed
    next index rest hnacks =>
      cases hproceed
      refine ⟨⟨fun _ => hpassed rfl, by simp⟩, fun other => ?_⟩
      simp only [beingSent, hpc, hnacks, SenderOutput.sentIndices,
        List.count_cons, List.count_nil]
      omega
    next hnacks =>
      split at hproceed
      next hdone =>
        cases hproceed
        refine ⟨⟨fun _ => hpassed rfl, fun _ => ⟨hnacks, hdone⟩⟩,
          fun other => ?_⟩
        simp [beingSent, hpc, SenderOutput.sentIndices]
      next => contradiction
  next => contradiction
  next => contradiction

theorem copies_afterRead {state : Transfer} {index : ℕ} (plaintext : Bytes)
    (horderly : state.Orderly) (hreading : state.reading? = some index) :
    (state.afterRead plaintext).1.Orderly ∧
      (state.afterRead plaintext).2.sentIndices = [] ∧
      ∀ other, (state.afterRead plaintext).1.copies.count other =
        state.copies.count other := by
  have hpassed := horderly.passed
  unfold reading? at hreading
  simp only [count_copies]
  split at hreading
  next hpc =>
    refine ⟨⟨?_, ?_⟩, ?_, fun other => ?_⟩
    · simp [afterRead, hpc, inSecondLoop]
    · simp [afterRead, hpc]
    · simp [afterRead, hpc, SenderOutput.sentIndices]
    · simp [afterRead, hpc, beingSent]
  next frame hpc =>
    refine ⟨⟨?_, ?_⟩, ?_, fun other => ?_⟩
    · cases frame <;> simp [afterRead, hpc, inSecondLoop, joined]
    · cases frame <;> simp [afterRead, hpc, joined]
    · simp [afterRead, hpc, SenderOutput.sentIndices]
    · cases frame <;> simp [afterRead, hpc, beingSent, joined]
  next index' serving hpc =>
    rw [hpc] at hpassed
    refine ⟨⟨?_, ?_⟩, ?_, fun other => ?_⟩
    · simp only [afterRead, hpc]
      cases serving with
      | true => exact fun _ => hpassed rfl
      | false => simp [inSecondLoop]
    · simp [afterRead, hpc]
    · simp [afterRead, hpc, SenderOutput.sentIndices]
    · simp [afterRead, hpc, beingSent]
  next => contradiction

theorem frame_holds {state next : Transfer} {index : ℕ} {plaintext : Bytes}
    (hproceed : state.proceed = some (next, .frame index plaintext)) :
    state.Holds index plaintext := by
  unfold proceed at hproceed
  split at hproceed
  next => split at hproceed <;> simp at hproceed
  next => split at hproceed <;> simp at hproceed
  next other bytes reading hpc =>
    simp only [Option.some.injEq, Prod.mk.injEq, SenderOutput.frame.injEq]
      at hproceed
    rcases hproceed with ⟨_, rfl, rfl⟩
    exact Or.inr (Or.inl ⟨reading, hpc⟩)
  next => contradiction
  next => split at hproceed <;> simp at hproceed
  next other bytes serving hpc =>
    simp only [Option.some.injEq, Prod.mk.injEq, SenderOutput.frame.injEq]
      at hproceed
    rcases hproceed with ⟨_, rfl, rfl⟩
    exact Or.inr (Or.inr ⟨serving, hpc⟩)
  next =>
    split at hproceed
    next => simp at hproceed
    next => split at hproceed <;> simp at hproceed
  next => contradiction
  next => contradiction

/-- A message of the control loop, which has not ended. -/
theorem copies_ctrlMessage {state next : Transfer} {message : ControlMessage}
    (hreply : ¬ IsReply message) (horderly : state.Orderly)
    (hdone : state.ctrlDone = false)
    (hmessage : ctrlMessage manifest state (.ok message) = .ok next) :
    next.Orderly ∧ ∀ index,
      next.copies.count index =
        state.copies.count index +
          (messageCopies manifest [message]).count index := by
  have hpc : state.pc ≠ .finished := by
    intro hpc
    rw [(horderly.finished hpc).2] at hdone
    contradiction
  cases message with
  | chunkNack nacked =>
      cases hmessage
      refine ⟨⟨horderly.passed, fun h => absurd h hpc⟩, fun index => ?_⟩
      rw [count_messageCopies_chunkNack]
      simp only [count_copies, beingSent, List.count_append]
      omega
  | complete =>
      cases hmessage
      refine ⟨⟨horderly.passed, fun h => absurd h hpc⟩, fun index => ?_⟩
      rw [count_messageCopies_of_quiet hreply rfl]
      simp [count_copies, beingSent]
  | progress bytes =>
      cases hmessage
      refine ⟨⟨horderly.passed, horderly.finished⟩, fun index => ?_⟩
      rw [count_messageCopies_of_quiet hreply rfl]
      simp [count_copies, beingSent]
  | error code message => contradiction
  | manifest other =>
      cases hmessage
      refine ⟨horderly, fun index => ?_⟩
      rw [count_messageCopies_of_quiet hreply rfl]
      simp
  | manifestAck => exact absurd ⟨_, rfl⟩ hreply
  | resumeRequest haveChunks => exact absurd ⟨_, rfl⟩ hreply

end Transfer

namespace DirectSender

variable (manifest) in
def copies : DirectSender → Copies
  | openUni skip => ⟨toSend manifest skip, [], [], []⟩
  | transfer state => state.copies
  | openBi | awaitReply | returned _ | failed _ => .none

def Orderly : DirectSender → Prop
  | transfer state => state.Orderly
  | failed _ => False
  | _ => True

variable {sender next : DirectSender} {output : SenderOutput}

theorem copies_proceed (horderly : sender.Orderly)
    (hproceed : sender.proceed manifest = some (next, output)) :
    next.Orderly ∧ (sender.Replied → next.Replied) ∧ ∀ index,
      (next.copies manifest).count index + output.sentIndices.count index =
        (sender.copies manifest).count index := by
  cases sender with
  | openBi =>
      cases hproceed
      exact ⟨trivial, False.elim, fun index => rfl⟩
  | awaitReply => contradiction
  | openUni skip =>
      cases hproceed
      refine ⟨⟨by simp [Transfer.start, Transfer.inSecondLoop],
        by simp [Transfer.start]⟩, id, fun index => ?_⟩
      simp [copies, Transfer.copies, Transfer.start, Transfer.beingSent,
        Copies.count, SenderOutput.sentIndices]
  | transfer state =>
      simp only [proceed] at hproceed
      split at hproceed
      next hfinished =>
        cases hproceed
        have htodo : state.todo = [] := by
          apply horderly.passed
          rw [hfinished.1]
          rfl
        have hnacks := (horderly.finished hfinished.1).1
        refine ⟨trivial, id, fun index => ?_⟩
        simp [copies, Transfer.count_copies, Transfer.beingSent, hfinished.1,
          htodo, hnacks, SenderOutput.sentIndices]
      next =>
        rcases Option.map_eq_some_iff.mp hproceed with
          ⟨⟨state', output'⟩, hstep, hresult⟩
        cases hresult
        rcases Transfer.copies_proceed horderly hstep with ⟨hnext, hcount⟩
        exact ⟨hnext, id, hcount⟩
  | returned bytesDone => contradiction
  | failed error => contradiction

/-- Reading the chunk of an outstanding copy succeeds and moves nothing. -/
theorem copies_read {file : Bytes}
    (horderly : sender.Orderly)
    (hfile : ∀ index, 0 < (sender.copies manifest).count index →
      ∃ plaintext, readChunk file manifest index = some plaintext)
    (hread : sender.read manifest file = some (next, output)) :
    next.Orderly ∧ next.Replied ∧ output.sentIndices = [] ∧ ∀ index,
      (next.copies manifest).count index =
        (sender.copies manifest).count index := by
  cases sender with
  | transfer state =>
      rcases Option.map_eq_some_iff.mp hread with ⟨index, hreading, hresult⟩
      have hcopy : 0 < state.copies.count index := by
        rw [Transfer.count_copies]
        unfold Transfer.reading? at hreading
        split at hreading
        · have hmem := List.mem_of_mem_head? hreading
          have hpos := List.count_pos_iff.mpr hmem
          omega
        · have hmem := List.mem_of_mem_head? hreading
          have hpos := List.count_pos_iff.mpr hmem
          omega
        next index' serving hpc =>
          cases hreading
          simp [Transfer.beingSent, hpc]
        next => contradiction
      rcases hfile index hcopy with ⟨plaintext, hchunk⟩
      rw [hchunk] at hresult
      cases hresult
      rcases Transfer.copies_afterRead plaintext horderly hreading with
        ⟨hnext, hsent, hcount⟩
      exact ⟨hnext, trivial, hsent, hcount⟩
  | openBi => contradiction
  | awaitReply => contradiction
  | openUni skip => contradiction
  | returned bytesDone => contradiction
  | failed error => contradiction

theorem frame_holds {size : ℕ} {event : SenderEvent} {index : ℕ}
    {plaintext : Bytes} (hregular : event.regular size = true)
    (hstep : sender.step manifest event = some (next, .frame index plaintext)) :
    sender.Holds index plaintext := by
  cases event with
  | proceed =>
      simp only [step, proceed] at hstep
      split at hstep
      · simp at hstep
      · simp at hstep
      · split at hstep
        · simp at hstep
        · rcases Option.map_eq_some_iff.mp hstep with
            ⟨⟨state', output'⟩, hproceed, hresult⟩
          cases hresult
          exact Transfer.frame_holds hproceed
      · contradiction
      · contradiction
      · contradiction
  | read file =>
      cases sender with
      | transfer state =>
          rcases Option.map_eq_some_iff.mp hstep with
            ⟨other, hreading, hresult⟩
          cases hchunk : readChunk file manifest other with
          | none => simp [hchunk] at hresult
          | some bytes =>
              have hframe : (state.afterRead bytes).2.sentIndices = [index] := by
                simp only [hchunk, Prod.mk.injEq] at hresult
                rw [hresult.2]
                rfl
              unfold Transfer.afterRead at hframe
              split at hframe <;> simp [SenderOutput.sentIndices] at hframe
      | openBi => contradiction
      | awaitReply => contradiction
      | openUni skip => contradiction
      | returned bytesDone => contradiction
      | failed error => contradiction
  | ctrlProceed => contradiction
  | ctrlRead file => contradiction
  | received result => cases hregular
  | fail error effect => cases hregular

/-- A message of the receiver, at the point where the sender expects it. -/
theorem copies_received {message : ControlMessage}
    (horderly : sender.Orderly)
    (hexpected : IsReply message ↔ ¬ sender.Replied)
    (herror : ∀ code text, message ≠ .error code text)
    (hreceived : sender.received manifest (.ok message) = some next) :
    next.Orderly ∧ next.Replied ∧ ∀ index,
      (next.copies manifest).count index =
        (sender.copies manifest).count index +
          (messageCopies manifest [message]).count index := by
  cases sender with
  | awaitReply =>
      rcases hexpected.mpr id with ⟨skip, hskip⟩
      simp only [received, hskip, Option.some.injEq] at hreceived
      subst hreceived
      refine ⟨trivial, trivial, fun index => ?_⟩
      rw [count_messageCopies_reply hskip]
      simp [copies, Copies.count, Copies.none]
  | transfer state =>
      have hreply : ¬ IsReply message := by
        intro hreply
        exact hexpected.mp hreply trivial
      simp only [received] at hreceived
      split at hreceived
      · contradiction
      next hdone =>
        cases hmessage : ctrlMessage manifest state (.ok message) with
        | error error =>
            cases message <;> first | contradiction | skip
            exact absurd rfl (herror _ _)
        | ok state' =>
            rw [hmessage] at hreceived
            cases hreceived
            rcases Transfer.copies_ctrlMessage hreply horderly
              (by simpa using hdone) hmessage with ⟨hnext, hcount⟩
            exact ⟨hnext, trivial, hcount⟩
  | openBi => contradiction
  | openUni skip => contradiction
  | returned bytesDone => contradiction
  | failed error => contradiction

end DirectSender

/-! ## The relay sender -/

namespace Worker

def reads : Worker → List ℕ
  | reading index => [index]
  | _ => []

def writes : Worker → List ℕ
  | writing index _ => [index]
  | _ => []

/-- The chunk of a worker, read or not. -/
def holds (worker : Worker) (index : ℕ) : ℕ :=
  worker.reads.count index + worker.writes.count index

theorem holds_write {worker next : Worker} {output : SenderOutput}
    (hwrite : worker.write = some (next, output)) (index : ℕ) :
    next.holds index + output.sentIndices.count index = worker.holds index := by
  cases worker with
  | writing index' plaintext =>
      cases hwrite
      simp [holds, reads, writes, SenderOutput.sentIndices]
  | idle => contradiction
  | reading index' => contradiction

/-- Reading the chunk of a worker's index, once the file has it. -/
theorem holds_read {file : Bytes} {worker : Worker}
    {result : Option (Worker × SenderOutput)}
    (hfile : ∀ index, 0 < worker.holds index →
      ∃ plaintext, readChunk file manifest index = some plaintext)
    (hread : worker.read manifest file = some result) :
    ∃ next output, result = some (next, output) ∧ worker ≠ idle ∧
      output.sentIndices = [] ∧
      ∀ index, next.holds index = worker.holds index := by
  cases worker with
  | reading index =>
      have hholds : 0 < (reading index).holds index := by
        simp [holds, reads, writes]
      rcases hfile index hholds with ⟨plaintext, hchunk⟩
      simp only [read, hchunk, Option.map_some, Option.some.injEq] at hread
      subst hread
      refine ⟨_, _, rfl, Worker.noConfusion, rfl, fun other => ?_⟩
      simp [holds, reads, writes]
  | idle => contradiction
  | writing index plaintext => contradiction

end Worker

namespace RelayTransfer

def copies (state : RelayTransfer) : Copies where
  stillToSend := state.todo
  inFlight :=
    state.sendWorker.reads ++ state.sendWorker.writes ++
      state.ctrlWorker.writes
  nackInFlight := []
  nackQueued := state.ctrlWorker.reads

def Orderly (state : RelayTransfer) : Prop :=
  state.ctrlDone = true → state.ctrlWorker = .idle

theorem count_copies (state : RelayTransfer) (index : ℕ) :
    state.copies.count index =
      state.todo.count index + state.sendWorker.holds index +
        state.ctrlWorker.holds index := by
  simp only [copies, Copies.count, Worker.holds, List.count_append,
    List.count_nil]
  omega

end RelayTransfer

namespace RelaySender

def copies : RelaySender → Copies
  | transfer state => state.copies
  | greet | awaitReply | returned _ | failed _ => .none

def Orderly : RelaySender → Prop
  | transfer state => state.Orderly
  | failed _ => False
  | _ => True

variable {sender next : RelaySender} {output : SenderOutput}

theorem copies_proceed (hbulk : manifest.transferMode = .bulk)
    (horderly : sender.Orderly)
    (hproceed : sender.proceed manifest = some (next, output)) :
    next.Orderly ∧ (sender.Replied → next.Replied) ∧ ∀ index,
      next.copies.count index + output.sentIndices.count index =
        sender.copies.count index := by
  cases sender with
  | greet =>
      simp only [proceed, hbulk, Option.some.injEq, Prod.mk.injEq] at hproceed
      rcases hproceed with ⟨rfl, rfl⟩
      exact ⟨trivial, False.elim, fun index => rfl⟩
  | transfer state =>
      simp only [proceed] at hproceed
      split at hproceed
      next index rest hworker htodo =>
        cases hproceed
        refine ⟨horderly, id, fun other => ?_⟩
        simp only [copies, RelayTransfer.count_copies, htodo, hworker,
          Worker.holds, Worker.reads, Worker.writes, List.count_cons,
          List.count_nil, SenderOutput.sentIndices]
        omega
      next hworker htodo =>
        split at hproceed
        next hdone =>
          cases hproceed
          have hctrl : state.ctrlWorker = .idle := horderly hdone
          refine ⟨trivial, id, fun index => ?_⟩
          simp [copies, RelayTransfer.count_copies, htodo, hworker, hctrl,
            Worker.holds, Worker.reads, Worker.writes,
            SenderOutput.sentIndices]
        next => contradiction
      next =>
        rcases Option.map_eq_some_iff.mp hproceed with
          ⟨⟨worker, sent⟩, hwrite, hresult⟩
        cases hresult
        refine ⟨horderly, id, fun index => ?_⟩
        have hholds := Worker.holds_write hwrite index
        simp only [copies, RelayTransfer.count_copies]
        omega
  | awaitReply => contradiction
  | returned bytesDone => contradiction
  | failed error => contradiction

theorem copies_ctrlProceed
    (horderly : sender.Orderly)
    (hstep : sender.step manifest .ctrlProceed = some (next, output)) :
    next.Orderly ∧ next.Replied ∧ ∀ index,
      next.copies.count index + output.sentIndices.count index =
        sender.copies.count index := by
  cases sender with
  | transfer state =>
      rcases Option.map_eq_some_iff.mp hstep with
        ⟨⟨worker, sent⟩, hwrite, hresult⟩
      cases hresult
      refine ⟨fun hdone => ?_, trivial, fun index => ?_⟩
      · rw [horderly hdone] at hwrite
        contradiction
      · have hholds := Worker.holds_write hwrite index
        simp only [copies, RelayTransfer.count_copies]
        omega
  | greet => contradiction
  | awaitReply => contradiction
  | returned bytesDone => contradiction
  | failed error => contradiction

/-- The two loops read their chunks alike. -/
theorem copies_read {file : Bytes} {event : SenderEvent}
    (hevent : event = .read file ∨ event = .ctrlRead file)
    (horderly : sender.Orderly)
    (hfile : ∀ index, 0 < sender.copies.count index →
      ∃ plaintext, readChunk file manifest index = some plaintext)
    (hstep : sender.step manifest event = some (next, output)) :
    next.Orderly ∧ next.Replied ∧ output.sentIndices = [] ∧ ∀ index,
      next.copies.count index = sender.copies.count index := by
  cases sender with
  | transfer state =>
      simp only [copies, RelayTransfer.count_copies] at hfile
      rcases hevent with rfl | rfl
      · rcases Option.map_eq_some_iff.mp hstep with ⟨result, hread, hresult⟩
        have hworker : ∀ index, 0 < state.sendWorker.holds index →
            ∃ plaintext, readChunk file manifest index = some plaintext :=
          fun index hindex => hfile index (by omega)
        rcases Worker.holds_read hworker hread with
          ⟨worker, sent, rfl, _, hsent, hholds⟩
        cases hresult
        refine ⟨horderly, trivial, hsent, fun index => ?_⟩
        simp only [copies, RelayTransfer.count_copies, hholds]
      · rcases Option.map_eq_some_iff.mp hstep with ⟨result, hread, hresult⟩
        have hworker : ∀ index, 0 < state.ctrlWorker.holds index →
            ∃ plaintext, readChunk file manifest index = some plaintext :=
          fun index hindex => hfile index (by omega)
        rcases Worker.holds_read hworker hread with
          ⟨worker, sent, rfl, hbusy, hsent, hholds⟩
        cases hresult
        refine ⟨fun hdone => absurd (horderly hdone) hbusy, trivial, hsent,
          fun index => ?_⟩
        simp only [copies, RelayTransfer.count_copies, hholds]
  | greet => rcases hevent with rfl | rfl <;> contradiction
  | awaitReply => rcases hevent with rfl | rfl <;> contradiction
  | returned bytesDone => rcases hevent with rfl | rfl <;> contradiction
  | failed error => rcases hevent with rfl | rfl <;> contradiction

theorem frame_holds {size : ℕ} {event : SenderEvent} {index : ℕ}
    {plaintext : Bytes} (hregular : event.regular size = true)
    (hstep : sender.step manifest event = some (next, .frame index plaintext)) :
    sender.Holds index plaintext := by
  cases event with
  | proceed =>
      cases sender with
      | greet =>
          simp only [step, proceed] at hstep
          split at hstep <;> simp at hstep
      | transfer state =>
          simp only [step, proceed] at hstep
          split at hstep
          · simp at hstep
          · split at hstep <;> simp at hstep
          · rcases Option.map_eq_some_iff.mp hstep with
              ⟨⟨worker, sent⟩, hwrite, hresult⟩
            rcases Worker.write_eq_some hwrite with
              ⟨other, bytes, hworker, _, hsent⟩
            simp only [Prod.mk.injEq, hsent, SenderOutput.frame.injEq]
              at hresult
            rcases hresult with ⟨_, rfl, rfl⟩
            exact Or.inl hworker
      | awaitReply => contradiction
      | returned bytesDone => contradiction
      | failed error => contradiction
  | ctrlProceed =>
      cases sender with
      | transfer state =>
          rcases Option.map_eq_some_iff.mp hstep with
            ⟨⟨worker, sent⟩, hwrite, hresult⟩
          rcases Worker.write_eq_some hwrite with
            ⟨other, bytes, hworker, _, hsent⟩
          simp only [Prod.mk.injEq, hsent, SenderOutput.frame.injEq] at hresult
          rcases hresult with ⟨_, rfl, rfl⟩
          exact Or.inr hworker
      | greet => contradiction
      | awaitReply => contradiction
      | returned bytesDone => contradiction
      | failed error => contradiction
  | read file =>
      cases sender with
      | transfer state =>
          rcases Option.map_eq_some_iff.mp hstep with ⟨result, hread, hresult⟩
          rcases Worker.read_eq_some hread with ⟨other, _, rfl⟩
          cases hchunk : readChunk file manifest other with
          | none =>
              rw [hchunk] at hresult
              cases congrArg Prod.snd hresult
          | some bytes =>
              rw [hchunk] at hresult
              cases congrArg Prod.snd hresult
      | greet => contradiction
      | awaitReply => contradiction
      | returned bytesDone => contradiction
      | failed error => contradiction
  | ctrlRead file =>
      cases sender with
      | transfer state =>
          rcases Option.map_eq_some_iff.mp hstep with ⟨result, hread, hresult⟩
          rcases Worker.read_eq_some hread with ⟨other, _, rfl⟩
          cases hchunk : readChunk file manifest other with
          | none =>
              rw [hchunk] at hresult
              cases congrArg Prod.snd hresult
          | some bytes =>
              rw [hchunk] at hresult
              cases congrArg Prod.snd hresult
      | greet => contradiction
      | awaitReply => contradiction
      | returned bytesDone => contradiction
      | failed error => contradiction
  | received result => cases hregular
  | fail error effect => cases hregular

theorem copies_ctrlMessage {state : RelayTransfer} {message : ControlMessage}
    (hreply : ¬ IsReply message)
    (herror : ∀ code text, message ≠ .error code text)
    (hidle : state.ctrlWorker = .idle) (hdone : state.ctrlDone = false) :
    (ctrlMessage manifest state (.ok message)).Orderly ∧
      (ctrlMessage manifest state (.ok message)).Replied ∧
      ∀ index,
        (ctrlMessage manifest state (.ok message)).copies.count index =
          state.copies.count index +
            (messageCopies manifest [message]).count index := by
  have horderly : state.Orderly := fun _ => hidle
  cases message with
  | chunkNack nacked =>
      refine ⟨fun hdone' => ?_, trivial, fun index => ?_⟩
      · rw [hdone] at hdone'
        contradiction
      · rw [count_messageCopies_chunkNack]
        simp [ctrlMessage, copies, RelayTransfer.count_copies, hidle,
          Worker.holds, Worker.reads, Worker.writes]
  | complete =>
      refine ⟨fun _ => hidle, trivial, fun index => ?_⟩
      rw [count_messageCopies_of_quiet hreply rfl]
      simp [ctrlMessage, copies, RelayTransfer.count_copies]
  | progress bytes =>
      refine ⟨horderly, trivial, fun index => ?_⟩
      rw [count_messageCopies_of_quiet hreply rfl]
      simp [ctrlMessage, copies, RelayTransfer.count_copies]
  | error code text => exact absurd rfl (herror code text)
  | manifest other =>
      refine ⟨horderly, trivial, fun index => ?_⟩
      rw [count_messageCopies_of_quiet hreply rfl]
      simp [ctrlMessage, copies]
  | manifestAck => exact absurd ⟨_, rfl⟩ hreply
  | resumeRequest haveChunks => exact absurd ⟨_, rfl⟩ hreply

theorem copies_received {message : ControlMessage}
    (hexpected : IsReply message ↔ ¬ sender.Replied)
    (herror : ∀ code text, message ≠ .error code text)
    (hreceived : sender.received manifest (.ok message) = some next) :
    next.Orderly ∧ next.Replied ∧ ∀ index,
      next.copies.count index =
        sender.copies.count index +
          (messageCopies manifest [message]).count index := by
  cases sender with
  | awaitReply =>
      rcases hexpected.mpr id with ⟨skip, hskip⟩
      simp only [received, hskip, Option.some.injEq] at hreceived
      subst hreceived
      refine ⟨fun _ => rfl, trivial, fun index => ?_⟩
      rw [count_messageCopies_reply hskip]
      simp [copies, RelayTransfer.count_copies, RelayTransfer.start,
        Worker.holds, Worker.reads, Worker.writes]
  | transfer state =>
      have hreply : ¬ IsReply message := by
        intro hreply
        exact hexpected.mp hreply trivial
      simp only [received] at hreceived
      split at hreceived
      next hready =>
        cases hreceived
        exact copies_ctrlMessage hreply herror hready.2 hready.1
      next => contradiction
  | greet => contradiction
  | returned bytesDone => contradiction
  | failed error => contradiction

end RelaySender

/-! ## The receivers -/

namespace Receiver

variable {Loop : Type}

/-- The chunks a receiver still misses, once it has decided. -/
def pending? (books : Loop → Books) : Receiver Loop → Option (Finset ℕ)
  | setup (.reply _ state _) | setup (.openFile _ state)
  | setup (.ready _ state) => some state.missingChunks.toFinset
  | loop l => some (books l).pending
  | returned b => some b.pending
  | setup _ | failed _ => none

variable (manifest) in
def copies (held : Loop → Copies) : Receiver Loop → Copies
  | setup (.reply _ _ message) => messageCopies manifest [message]
  | loop l => held l
  | _ => .none

end Receiver

def ReceiverOutput.messages : ReceiverOutput → List ControlMessage
  | .ctrl message => [message]
  | _ => []

/-- Neither a reply nor an error: what the receive loops send. -/
def IsReport : ControlMessage → Prop
  | .chunkNack _ | .progress _ | .complete => True
  | _ => False

theorem IsReport.not_isReply {message : ControlMessage}
    (hreport : IsReport message) : ¬ IsReply message := by
  rintro ⟨skip, hskip⟩
  cases message <;> contradiction

theorem IsReport.ne_error {message : ControlMessage}
    (hreport : IsReport message) (code : ℕ) (text : String) :
    message ≠ .error code text := by
  rintro rfl
  contradiction

/-- A step of a receive loop: a chunk in hand is delivered, or nothing
changes but that a NACK goes on its way. -/
structure LoopMove (before after : Copies) (pending pending' : Finset ℕ)
    (delivered : List ℕ) (output : ReceiverOutput) (manifest : FileManifest) :
    Prop where
  reports : ∀ message ∈ output.messages, IsReport message
  delivered_nodup : delivered.Nodup
  pending : ∀ index, index ∈ pending' ↔ index ∈ pending ∧ index ∉ delivered
  count : ∀ index,
    after.count index + (messageCopies manifest output.messages).count index +
      delivered.count index = before.count index

/-- A step that moves no chunk and sends no NACK. -/
theorem LoopMove.quiet {before after : Copies} {pending : Finset ℕ}
    {output : ReceiverOutput} (hafter : after = before)
    (hreports : ∀ message ∈ output.messages,
      IsReport message ∧ nackedBy message = []) :
    LoopMove before after pending pending [] output manifest where
  reports := fun message hmessage => (hreports message hmessage).1
  delivered_nodup := List.nodup_nil
  pending := by simp
  count := by
    intro index
    have hmessages :
        (messageCopies manifest output.messages).count index = 0 := by
      cases output with
      | ctrl message =>
          rcases hreports message List.mem_cons_self with ⟨hreport, hnack⟩
          exact count_messageCopies_of_quiet hreport.not_isReply hnack index
      | _ => rfl
    rw [hmessages, hafter]
    simp

/-- The chunk in hand is delivered. -/
theorem LoopMove.deliver {before after : Copies} {pending : Finset ℕ}
    {index : ℕ} {op : FileOp} (hbefore : before = frameCopies [index])
    (hafter : after = .none) :
    LoopMove before after pending (pending.erase index) [index] (.file op)
      manifest where
  reports := by simp [ReceiverOutput.messages]
  delivered_nodup := List.nodup_singleton index
  pending := by
    intro other
    rw [Finset.mem_erase, List.mem_singleton]
    exact and_comm
  count := by
    intro other
    rw [hbefore, hafter]
    simp [ReceiverOutput.messages]

/-- The NACK in hand is sent. -/
theorem LoopMove.sendNack {before after : Copies} {pending : Finset ℕ}
    {index : ℕ} (hbefore : before = ⟨[], [], [index], []⟩)
    (hafter : after = .none) :
    LoopMove before after pending pending [] (.ctrl (.chunkNack index))
      manifest where
  reports := by simp [ReceiverOutput.messages, IsReport]
  delivered_nodup := List.nodup_nil
  pending := by simp
  count := by
    intro other
    rw [hbefore, hafter, ReceiverOutput.messages,
      count_messageCopies_chunkNack]
    simp [Copies.count, Copies.none]

namespace DirectLoop

def held (loop : DirectLoop) : Copies :=
  match loop.pc with
  | .nack index => ⟨[], [], [index], []⟩
  | .join index _ | .spawn index _ => frameCopies [index]
  | _ => .none

/-- The chunk that the next step hands to the disk and records. -/
def delivers (loop : DirectLoop) : List ℕ :=
  match loop.pc with
  | .spawn index _ => [index]
  | _ => []

@[simp] theorem held_toHead (loop : DirectLoop) : loop.toHead.held = .none := by
  unfold held
  rcases toHead_cases loop with ⟨hpc, _⟩ | hpc
  · rw [hpc]
  · rw [hpc]

@[simp] theorem held_countSave (loop : DirectLoop) :
    loop.countSave.held = .none := by
  rcases countSave_cases loop with hsave | hhead
  · rw [hsave]
    rfl
  · rw [hhead, held_toHead]

@[simp] theorem held_recordChunk (loop : DirectLoop) (index : ℕ)
    (plaintext : Bytes) :
    (loop.recordChunk index plaintext).held = .none := by
  rcases recordChunk_cases loop index plaintext with hack | hcount
  · rw [hack]
    rfl
  · rw [hcount, held_countSave]

variable (manifest) in
theorem move {loop : DirectLoop} {receiver : DirectReceiver}
    {output : ReceiverOutput}
    (hproceed : loop.proceed = some (receiver, output)) :
    ∃ pending', receiver.pending? books = some pending' ∧
      LoopMove loop.held (receiver.copies manifest held) loop.books.pending
        pending' loop.delivers output manifest := by
  unfold proceed at hproceed
  split at hproceed
  next => contradiction
  next index hpc =>
    cases hproceed
    have hheld : loop.held = ⟨[], [], [index], []⟩ := by simp [held, hpc]
    have hdelivers : loop.delivers = [] := by simp [delivers, hpc]
    rw [hdelivers]
    exact ⟨_, rfl, LoopMove.sendNack hheld (held_toHead loop)⟩
  next index plaintext hpc =>
    cases hproceed
    have hheld : loop.held = frameCopies [index] := by simp [held, hpc]
    have hdelivers : loop.delivers = [] := by simp [delivers, hpc]
    rw [hdelivers]
    exact ⟨_, rfl, LoopMove.quiet hheld.symm (by simp [ReceiverOutput.messages])⟩
  next index plaintext hpc =>
    cases hproceed
    have hheld : loop.held = frameCopies [index] := by simp [held, hpc]
    have hdelivers : loop.delivers = [index] := by simp [delivers, hpc]
    have hpending : (loop.recordChunk index plaintext).books.pending =
        loop.books.pending.erase index := by
      rw [recordChunk_books]
      rfl
    rw [hdelivers]
    refine ⟨_, rfl, ?_⟩
    rw [hpending]
    exact LoopMove.deliver hheld (held_recordChunk loop index plaintext)
  next hpc =>
    cases hproceed
    have hheld : loop.held = .none := by simp [held, hpc]
    have hdelivers : loop.delivers = [] := by simp [delivers, hpc]
    have hpending : ({ loop with sinceAck := 0 }.countSave).books.pending =
        loop.books.pending := by
      rw [countSave_books]
    rw [hdelivers]
    refine ⟨_, rfl, ?_⟩
    rw [hpending]
    apply LoopMove.quiet
    · rw [hheld]
      exact held_countSave _
    · simp [ReceiverOutput.messages, IsReport, nackedBy]
  next hpc =>
    cases hproceed
    have hheld : loop.held = .none := by simp [held, hpc]
    have hdelivers : loop.delivers = [] := by simp [delivers, hpc]
    rw [hdelivers]
    refine ⟨_, rfl, LoopMove.quiet ?_ (by simp [ReceiverOutput.messages])⟩
    rw [hheld]
    exact held_toHead _
  next hpc =>
    cases hproceed
    have hheld : loop.held = .none := by simp [held, hpc]
    have hdelivers : loop.delivers = [] := by simp [delivers, hpc]
    rw [hdelivers]
    exact ⟨_, rfl, LoopMove.quiet hheld.symm (by simp [ReceiverOutput.messages])⟩
  next hpc =>
    cases hproceed
    have hheld : loop.held = .none := by simp [held, hpc]
    have hdelivers : loop.delivers = [] := by simp [delivers, hpc]
    rw [hdelivers]
    exact ⟨_, rfl, LoopMove.quiet hheld.symm (by simp [ReceiverOutput.messages])⟩
  next hpc =>
    cases hproceed
    have hheld : loop.held = .none := by simp [held, hpc]
    have hdelivers : loop.delivers = [] := by simp [delivers, hpc]
    rw [hdelivers]
    refine ⟨_, rfl, LoopMove.quiet hheld.symm ?_⟩
    simp [ReceiverOutput.messages, IsReport, nackedBy]
  next hpc =>
    cases hproceed
    have hheld : loop.held = .none := by simp [held, hpc]
    have hdelivers : loop.delivers = [] := by simp [delivers, hpc]
    rw [hdelivers]
    exact ⟨_, rfl, LoopMove.quiet hheld.symm (by simp [ReceiverOutput.messages])⟩

/-- A frame of a chunk that is pending is taken into hand or NACKed. -/
theorem held_receive {loop : DirectLoop} {read : ℕ → Bytes → Option Bytes}
    {frame : Frame} {receiver : DirectReceiver} {rest : Bytes}
    (hframed : frame.WellFramed (maxPayload loop.books.manifest))
    (hpending : frame.index ∈ loop.books.pending)
    (hreceive : loop.receive read frame.bytes = some (receiver, rest)) :
    ∃ next, receiver = .loop next ∧
      next.books.pending = loop.books.pending ∧
      ∀ index, next.held.count index =
        loop.held.count index + [frame.index].count index := by
  have hbytes := readFrame_bytes read loop.books.pending loop.books.bytesDone
    hframed []
  rw [List.append_nil] at hbytes
  unfold receive at hreceive
  split at hreceive
  next hhead =>
    have hheld : loop.held = .none := by simp [held, hhead]
    rw [hbytes] at hreceive
    simp only [Option.map_some, Option.some.injEq, Prod.mk.injEq] at hreceive
    rcases hreceive with ⟨rfl, _⟩
    rw [hheld]
    rcases frameOutcome_of_pending read loop.books.bytesDone hpending with
      hnack | ⟨plaintext, haccepted⟩
    · rw [hnack]
      exact ⟨_, rfl, rfl, fun index => by
        simp [held, Copies.count, Copies.none]⟩
    · rw [haccepted]
      exact ⟨_, rfl, rfl, fun index => by simp [held]⟩
  next => contradiction

end DirectLoop

namespace RelayLoop

def held (loop : RelayLoop) : Copies :=
  match loop.pc with
  | .nack index => ⟨[], [], [index], []⟩
  | .write index _ => frameCopies [index]
  | _ => .none

def delivers (loop : RelayLoop) : List ℕ :=
  match loop.pc with
  | .write index _ => [index]
  | _ => []

@[simp] theorem held_toHead (loop : RelayLoop) : loop.toHead.held = .none := by
  unfold held
  rcases toHead_cases loop with ⟨hpc, _⟩ | hpc
  · rw [hpc]
  · rw [hpc]

@[simp] theorem held_afterAck (loop : RelayLoop) :
    loop.afterAck.held = .none := by
  rcases afterAck_cases loop with hsave | hhead
  · rw [hsave]
    rfl
  · rw [hhead, held_toHead]

variable (manifest) in
theorem move {loop : RelayLoop} {receiver : RelayReceiver}
    {output : ReceiverOutput}
    (hproceed : loop.proceed = some (receiver, output)) :
    ∃ pending', receiver.pending? books = some pending' ∧
      LoopMove loop.held (receiver.copies manifest held) loop.books.pending
        pending' loop.delivers output manifest := by
  unfold proceed at hproceed
  split at hproceed
  next => contradiction
  next index hpc =>
    cases hproceed
    have hheld : loop.held = ⟨[], [], [index], []⟩ := by simp [held, hpc]
    have hdelivers : loop.delivers = [] := by simp [delivers, hpc]
    rw [hdelivers]
    exact ⟨_, rfl, LoopMove.sendNack hheld (held_toHead loop)⟩
  next index plaintext hpc =>
    cases hproceed
    have hheld : loop.held = frameCopies [index] := by simp [held, hpc]
    have hdelivers : loop.delivers = [index] := by simp [delivers, hpc]
    rw [hdelivers]
    exact ⟨_, rfl, LoopMove.deliver hheld rfl⟩
  next hpc =>
    cases hproceed
    have hheld : loop.held = .none := by simp [held, hpc]
    have hdelivers : loop.delivers = [] := by simp [delivers, hpc]
    have hpending : loop.afterAck.books.pending = loop.books.pending := by
      rw [afterAck_books]
    rw [hdelivers]
    refine ⟨_, rfl, ?_⟩
    rw [hpending]
    apply LoopMove.quiet
    · rw [hheld]
      exact held_afterAck loop
    · simp [ReceiverOutput.messages, IsReport, nackedBy]
  next hpc =>
    cases hproceed
    have hheld : loop.held = .none := by simp [held, hpc]
    have hdelivers : loop.delivers = [] := by simp [delivers, hpc]
    rw [hdelivers]
    refine ⟨_, rfl, LoopMove.quiet ?_ (by simp [ReceiverOutput.messages])⟩
    rw [hheld]
    exact held_toHead loop
  next hpc =>
    cases hproceed
    have hheld : loop.held = .none := by simp [held, hpc]
    have hdelivers : loop.delivers = [] := by simp [delivers, hpc]
    rw [hdelivers]
    exact ⟨_, rfl, LoopMove.quiet hheld.symm (by simp [ReceiverOutput.messages])⟩
  next hpc =>
    cases hproceed
    have hheld : loop.held = .none := by simp [held, hpc]
    have hdelivers : loop.delivers = [] := by simp [delivers, hpc]
    rw [hdelivers]
    refine ⟨_, rfl, LoopMove.quiet hheld.symm ?_⟩
    simp [ReceiverOutput.messages, IsReport, nackedBy]
  next hpc =>
    cases hproceed
    have hheld : loop.held = .none := by simp [held, hpc]
    have hdelivers : loop.delivers = [] := by simp [delivers, hpc]
    rw [hdelivers]
    exact ⟨_, rfl, LoopMove.quiet hheld.symm (by simp [ReceiverOutput.messages])⟩

/-- The relay loop takes a frame without looking whether it is pending. -/
theorem held_receive {loop : RelayLoop} {read : ℕ → Bytes → Option Bytes}
    {decode : Bytes → Option ControlMessage} {frame : Frame} {bound : ℕ}
    {receiver : RelayReceiver} {rest : Bytes}
    (hframed : frame.WellFramed bound)
    (hreceive :
      loop.receive read decode (toBe 1 1 ++ frame.bytes) =
        some (receiver, rest)) :
    ∃ next, receiver = .loop next ∧
      next.books.pending = loop.books.pending ∧
      ∀ index, next.held.count index =
        loop.held.count index + [frame.index].count index := by
  have hbytes := recvMsg_frame_bytes read decode hframed []
  rw [List.append_nil] at hbytes
  unfold receive at hreceive
  split at hreceive
  next hhead =>
    have hheld : loop.held = .none := by simp [held, hhead]
    rw [hbytes] at hreceive
    simp only [Option.map_some, Option.some.injEq, Prod.mk.injEq, outcomeOf]
      at hreceive
    rcases hreceive with ⟨rfl, _⟩
    rw [hheld]
    rcases relayOutcome_chunk read loop.books.manifest frame.index
        (payload frame.subs) with hnack | ⟨plaintext, haccepted⟩
    · rw [hnack]
      exact ⟨_, rfl, rfl, fun index => by
        simp [held, Copies.count, Copies.none]⟩
    · rw [haccepted]
      exact ⟨_, rfl, rfl, fun index => by simp [held]⟩
  next => contradiction

end RelayLoop

end P2pShare
