import P2pShare.Receiver

/-!
# What the two receive loops have in common

A view of a receive loop, the laws a view has to satisfy, and the proofs that
the loops of `receive_file_direct` and `receive_file_relay` satisfy them.
-/

namespace P2pShare

open ByteStream PathResolution

/-! ## Views of a receive loop -/

/-- `holding`: a chunk was accepted and its write has not begun.  `writing`: a
write was handed to a task that has not been awaited; `joins`: it is being
awaited.  `background` tells whether writes are handed to a task at all. -/
structure LoopKind (Loop : Type) extends ReceiveLoop Loop where
  receive : (ℕ → Bytes → Option Bytes) → (Bytes → Option ControlMessage) →
    Bytes → Loop → Option (Receiver Loop)
  background : Bool
  books : Loop → Books
  holding : Loop → Option (ℕ × Bytes)
  writing : Loop → Bool
  joins : Loop → Bool
  completed : Loop → Prop
  Regular : Loop → Prop

namespace LoopKind

variable {Loop : Type}

/-- A step that hands the chunk the loop holds to the disk. -/
structure Writes (kind : LoopKind Loop) (loop next : Loop)
    (output : ReceiverOutput) (index : ℕ) (plaintext : Bytes) : Prop where
  holding : kind.holding loop = some (index, plaintext)
  settled : kind.writing loop = false
  output : output = .file ((kind.books loop).writeOp index plaintext)
  pending : (kind.books next).pending = (kind.books loop).pending.erase index
  done : (kind.books next).state.chunksDone =
    insert index (kind.books loop).state.chunksDone
  holding_next : kind.holding next = none
  writing_next : kind.writing next = kind.background

/-- A step that touches no file and moves no chunk. -/
structure Waits (kind : LoopKind Loop) (loop next : Loop)
    (output : ReceiverOutput) : Prop where
  output : ∀ op, output ≠ .file op
  pending : (kind.books next).pending = (kind.books loop).pending
  done : (kind.books next).state.chunksDone =
    (kind.books loop).state.chunksDone
  holding : kind.holding next = kind.holding loop ∨ kind.holding next = none
  writing : kind.writing next = kind.writing loop ∨
    kind.joins loop = true ∧ kind.writing next = false

structure ProceedFacts (kind : LoopKind Loop) (loop next : Loop)
    (output : ReceiverOutput) : Prop where
  regular : kind.Regular next
  manifest : (kind.books next).manifest = (kind.books loop).manifest
  outputPath : (kind.books next).outputPath = (kind.books loop).outputPath
  chunkCount : (kind.books next).state.manifest =
    (kind.books loop).state.manifest
  moves : (∃ index plaintext,
      kind.Writes loop next output index plaintext) ∨
    kind.Waits loop next output
  complete : output = .ctrl .complete ∨ kind.completed next →
    output = .ctrl .complete ∧ kind.completed next ∧
      (kind.books loop).pending = ∅ ∧ kind.holding loop = none ∧
      kind.writing loop = false

structure ReceiveFacts (kind : LoopKind Loop)
    (read : ℕ → Bytes → Option Bytes) (loop next : Loop) : Prop where
  regular : kind.Regular next
  manifest : (kind.books next).manifest = (kind.books loop).manifest
  outputPath : (kind.books next).outputPath = (kind.books loop).outputPath
  state : (kind.books next).state = (kind.books loop).state
  pending : (kind.books next).pending = (kind.books loop).pending
  writing : kind.writing next = kind.writing loop
  not_completed : ¬ kind.completed next
  holding : ∀ index plaintext,
    kind.holding next = some (index, plaintext) →
      plaintext.length = (kind.books loop).manifest.sizeOf index ∧
        Decrypts read index plaintext

structure Laws (kind : LoopKind Loop) : Prop where
  start_regular : ∀ books, kind.Regular (kind.start books)
  start_books : ∀ books, kind.books (kind.start books) = books
  start_holding : ∀ books, kind.holding (kind.start books) = none
  start_not_completed : ∀ books, ¬ kind.completed (kind.start books)
  proceed_cases : ∀ {loop receiver output}, kind.Regular loop →
    kind.proceed loop = some (receiver, output) →
      (∃ next, receiver = .loop next ∧ ¬ kind.completed loop ∧
        kind.ProceedFacts loop next output) ∨
      kind.completed loop ∧ receiver = .returned (kind.books loop) ∧
        output = .delete (kind.books loop).state
  receive_cases : ∀ {read decode input loop receiver}, kind.Regular loop →
    kind.receive read decode input loop = some receiver →
      (∃ error, receiver = .failed error) ∨
      ∃ next, receiver = .loop next ∧ ¬ kind.completed loop ∧
        kind.ReceiveFacts read loop next

end LoopKind

/-- In its loop a receiver goes on by the loop's own step, or fails. -/
theorem Receiver.step_loop {Loop : Type} {kind : ReceiveLoop Loop}
    {outputDir : RawPath} {loop : Loop} {event : ReceiverEvent}
    {receiver : Receiver Loop} {output : ReceiverOutput}
    (hstep : (Receiver.loop loop).step kind outputDir event =
      some (receiver, output)) :
    event = .proceed ∧ kind.proceed loop = some (receiver, output) ∨
      ∃ error, receiver = .failed error := by
  cases event with
  | proceed => exact Or.inl ⟨rfl, hstep⟩
  | fail error effect =>
      simp only [Receiver.step, Receiver.fail] at hstep
      split at hstep
      · cases hstep
        exact Or.inr ⟨error, rfl⟩
      · cases hstep
        exact Or.inr ⟨error, rfl⟩
  | received result => simp [Receiver.step, Receiver.received] at hstep
  | lookup pathExists files => simp [Receiver.step, Receiver.lookup] at hstep

/-! ## The direct loop -/

namespace DirectLoop

def holding (loop : DirectLoop) : Option (ℕ × Bytes) :=
  match loop.pc with
  | .join index plaintext | .spawn index plaintext => some (index, plaintext)
  | _ => none

def joins (loop : DirectLoop) : Bool :=
  match loop.pc with
  | .join _ _ | .finalJoin => true
  | _ => false

/-- Past the join no write is outstanding, and past the loop no chunk is. -/
def Regular (loop : DirectLoop) : Prop :=
  match loop.pc with
  | .spawn _ _ => loop.writing = false
  | .finalJoin => loop.books.pending = ∅
  | .finalSave | .complete | .delete =>
      loop.writing = false ∧ loop.books.pending = ∅
  | _ => True

variable (loop : DirectLoop)

@[simp] theorem toHead_books : loop.toHead.books = loop.books := rfl

@[simp] theorem toHead_writing : loop.toHead.writing = loop.writing := rfl

theorem toHead_cases :
    loop.toHead.pc = .finalJoin ∧ loop.books.pending = ∅ ∨
      loop.toHead.pc = .head := by
  unfold toHead
  by_cases hpending : loop.books.pending = ∅
  · exact Or.inl ⟨if_pos hpending, hpending⟩
  · exact Or.inr (if_neg hpending)

@[simp] theorem toHead_holding : loop.toHead.holding = none := by
  unfold holding
  rcases toHead_cases loop with ⟨hpc, _⟩ | hpc
  · rw [hpc]
  · rw [hpc]

theorem toHead_regular : loop.toHead.Regular := by
  unfold Regular
  rcases toHead_cases loop with ⟨hpc, hpending⟩ | hpc
  · rw [hpc]
    exact hpending
  · rw [hpc]
    trivial

theorem toHead_pc_ne_delete : loop.toHead.pc ≠ .delete := by
  rcases toHead_cases loop with ⟨hpc, _⟩ | hpc
  · simp [hpc]
  · simp [hpc]

theorem countSave_cases :
    loop.countSave =
        { loop with pc := .save, sinceSave := loop.sinceSave + 1 } ∨
      loop.countSave =
        { loop with sinceSave := loop.sinceSave + 1 }.toHead := by
  unfold countSave
  dsimp only
  split
  · exact Or.inl rfl
  · exact Or.inr rfl

@[simp] theorem countSave_books : loop.countSave.books = loop.books := by
  rcases countSave_cases loop with hsave | hhead
  · rw [hsave]
  · rw [hhead, toHead_books]

@[simp] theorem countSave_writing :
    loop.countSave.writing = loop.writing := by
  rcases countSave_cases loop with hsave | hhead
  · rw [hsave]
  · rw [hhead, toHead_writing]

@[simp] theorem countSave_holding : loop.countSave.holding = none := by
  rcases countSave_cases loop with hsave | hhead
  · rw [hsave]
    rfl
  · rw [hhead, toHead_holding]

theorem countSave_regular : loop.countSave.Regular := by
  rcases countSave_cases loop with hsave | hhead
  · rw [hsave]
    trivial
  · rw [hhead]
    exact toHead_regular _

theorem countSave_pc_ne_delete : loop.countSave.pc ≠ .delete := by
  rcases countSave_cases loop with hsave | hhead
  · simp [hsave]
  · rw [hhead]
    exact toHead_pc_ne_delete _

variable (index : ℕ) (plaintext : Bytes)

theorem recordChunk_cases :
    loop.recordChunk index plaintext =
        { loop with
          books := loop.books.record index plaintext.length
          writing := true
          sinceAck := loop.sinceAck + 1
          pc := .ack } ∨
      loop.recordChunk index plaintext =
        { loop with
          books := loop.books.record index plaintext.length
          writing := true
          sinceAck := loop.sinceAck + 1 }.countSave := by
  unfold recordChunk
  dsimp only
  split
  · exact Or.inl rfl
  · exact Or.inr rfl

@[simp] theorem recordChunk_books :
    (loop.recordChunk index plaintext).books =
      loop.books.record index plaintext.length := by
  rcases recordChunk_cases loop index plaintext with hack | hcount
  · rw [hack]
  · rw [hcount, countSave_books]

@[simp] theorem recordChunk_writing :
    (loop.recordChunk index plaintext).writing = true := by
  rcases recordChunk_cases loop index plaintext with hack | hcount
  · rw [hack]
  · rw [hcount, countSave_writing]

@[simp] theorem recordChunk_holding :
    (loop.recordChunk index plaintext).holding = none := by
  rcases recordChunk_cases loop index plaintext with hack | hcount
  · rw [hack]
    rfl
  · rw [hcount, countSave_holding]

theorem recordChunk_regular :
    (loop.recordChunk index plaintext).Regular := by
  rcases recordChunk_cases loop index plaintext with hack | hcount
  · rw [hack]
    trivial
  · rw [hcount]
    exact countSave_regular _

theorem recordChunk_pc_ne_delete :
    (loop.recordChunk index plaintext).pc ≠ .delete := by
  rcases recordChunk_cases loop index plaintext with hack | hcount
  · simp [hack]
  · rw [hcount]
    exact countSave_pc_ne_delete _

end DirectLoop

def directLoopKind : LoopKind DirectLoop where
  toReceiveLoop := directKind
  receive := fun read _ input loop =>
    (loop.receive read input).map Prod.fst
  background := true
  books := DirectLoop.books
  holding := DirectLoop.holding
  writing := DirectLoop.writing
  joins := DirectLoop.joins
  completed := fun loop => loop.pc = .delete
  Regular := DirectLoop.Regular

namespace DirectLoop

variable {loop : DirectLoop} {receiver : DirectReceiver}
  {output : ReceiverOutput}

/-- A step that leaves the books alone and does not complete. -/
theorem proceedFacts_of_books_eq {next : DirectLoop} (hregular : next.Regular)
    (hbooks : next.books = loop.books) (hpc : next.pc ≠ .delete)
    (hfile : ∀ op, output ≠ .file op) (hcomplete : output ≠ .ctrl .complete)
    (hholding : next.holding = loop.holding ∨ next.holding = none)
    (hwriting : next.writing = loop.writing ∨
      loop.joins = true ∧ next.writing = false) :
    directLoopKind.ProceedFacts loop next output where
  regular := hregular
  manifest := congrArg Books.manifest hbooks
  outputPath := congrArg Books.outputPath hbooks
  chunkCount := congrArg (fun books => books.state.manifest) hbooks
  moves := Or.inr
    { output := hfile
      pending := congrArg Books.pending hbooks
      done := congrArg (fun books => books.state.chunksDone) hbooks
      holding := hholding
      writing := hwriting }
  complete := by
    rintro (houtput | hnext)
    · exact absurd houtput hcomplete
    · exact absurd hnext hpc

theorem proceed_cases (hregular : loop.Regular)
    (hproceed : loop.proceed = some (receiver, output)) :
    (∃ next, receiver = .loop next ∧ loop.pc ≠ .delete ∧
        directLoopKind.ProceedFacts loop next output) ∨
      loop.pc = .delete ∧ receiver = .returned loop.books ∧
        output = .delete loop.books.state := by
  unfold proceed at hproceed
  unfold Regular at hregular
  split at hproceed
  next => contradiction
  next index hpc =>
    cases hproceed
    refine Or.inl ⟨_, rfl, by simp [hpc],
      proceedFacts_of_books_eq (toHead_regular loop) rfl
        (toHead_pc_ne_delete loop) ?_ ?_ ?_ ?_⟩
    · simp
    · simp
    · exact Or.inr (toHead_holding loop)
    · exact Or.inl rfl
  next index plaintext hpc =>
    cases hproceed
    refine Or.inl ⟨_, rfl, by simp [hpc],
      proceedFacts_of_books_eq rfl rfl ?_ ?_ ?_ ?_ ?_⟩
    · simp
    · simp
    · simp
    · simp [holding, hpc]
    · simp [joins, hpc]
  next index plaintext hpc =>
    cases hproceed
    rw [hpc] at hregular
    refine Or.inl ⟨_, rfl, by simp [hpc], ?_⟩
    constructor
    · exact recordChunk_regular loop index plaintext
    · simp [directLoopKind, Books.record]
    · simp [directLoopKind, Books.record]
    · simp [directLoopKind, Books.record]
    · refine Or.inl ⟨index, plaintext, ?_⟩
      constructor
      · simp [directLoopKind, holding, hpc]
      · exact hregular
      · rfl
      · simp [directLoopKind, Books.record]
      · simp [directLoopKind, Books.record]
      · exact recordChunk_holding loop index plaintext
      · exact recordChunk_writing loop index plaintext
    · simp [directLoopKind, recordChunk_pc_ne_delete]
  next hpc =>
    cases hproceed
    refine Or.inl ⟨_, rfl, by simp [hpc],
      proceedFacts_of_books_eq (countSave_regular _)
        (countSave_books _) (countSave_pc_ne_delete _) ?_ ?_ ?_ ?_⟩
    · simp
    · simp
    · exact Or.inr (countSave_holding _)
    · exact Or.inl (countSave_writing _)
  next hpc =>
    cases hproceed
    refine Or.inl ⟨_, rfl, by simp [hpc],
      proceedFacts_of_books_eq (toHead_regular _) rfl
        (toHead_pc_ne_delete _) ?_ ?_ ?_ ?_⟩
    · simp
    · simp
    · exact Or.inr (toHead_holding _)
    · exact Or.inl rfl
  next hpc =>
    cases hproceed
    rw [hpc] at hregular
    refine Or.inl ⟨_, rfl, by simp [hpc],
      proceedFacts_of_books_eq ⟨rfl, hregular⟩ rfl ?_ ?_ ?_ ?_ ?_⟩
    · simp
    · simp
    · simp
    · exact Or.inr rfl
    · simp [joins, hpc]
  next hpc =>
    cases hproceed
    rw [hpc] at hregular
    refine Or.inl ⟨_, rfl, by simp [hpc],
      proceedFacts_of_books_eq hregular rfl ?_ ?_ ?_ ?_ ?_⟩
    · simp
    · simp
    · simp
    · exact Or.inr rfl
    · exact Or.inl rfl
  next hpc =>
    cases hproceed
    rw [hpc] at hregular
    refine Or.inl ⟨_, rfl, by simp [hpc], ?_⟩
    constructor
    · exact hregular
    · rfl
    · rfl
    · rfl
    · exact Or.inr ⟨by simp, rfl, rfl, Or.inr rfl, Or.inl rfl⟩
    · intro _
      exact ⟨rfl, rfl, hregular.2, by simp [directLoopKind, holding, hpc],
        hregular.1⟩
  next hpc =>
    cases hproceed
    exact Or.inr ⟨hpc, rfl, rfl⟩

theorem receive_cases {read : ℕ → Bytes → Option Bytes} {input rest : Bytes}
    (hreceive : loop.receive read input = some (receiver, rest)) :
    (∃ error, receiver = .failed error) ∨
      ∃ next, receiver = .loop next ∧ loop.pc ≠ .delete ∧
        directLoopKind.ReceiveFacts read loop next := by
  unfold receive at hreceive
  split at hreceive
  next hpc =>
    rcases Option.map_eq_some_iff.mp hreceive with
      ⟨⟨⟨outcome, bytesDone⟩, rest'⟩, hframe, hresult⟩
    cases hresult
    cases outcome with
    | failed error => exact Or.inl ⟨error, rfl⟩
    | skipped =>
        refine Or.inr ⟨_, rfl, by simp [hpc], toHead_regular _, rfl, rfl, rfl,
          rfl, rfl, toHead_pc_ne_delete _, ?_⟩
        intro index plaintext hholding
        simp only [directLoopKind, toHead_holding] at hholding
        contradiction
    | nack index =>
        refine Or.inr ⟨_, rfl, by simp [hpc], trivial, rfl, rfl, rfl, rfl,
          rfl, by simp [directLoopKind], ?_⟩
        intro index' plaintext hholding
        simp [directLoopKind, holding] at hholding
    | accepted index plaintext =>
        refine Or.inr ⟨_, rfl, by simp [hpc], trivial, rfl, rfl, rfl, rfl,
          rfl, by simp [directLoopKind], ?_⟩
        intro index' plaintext' hholding
        simp only [directLoopKind, holding, Option.some.injEq,
          Prod.mk.injEq] at hholding
        rcases hholding with ⟨rfl, rfl⟩
        exact (readFrame_accepted hframe).2
  next => contradiction

end DirectLoop

theorem directLoopKind_laws : directLoopKind.Laws where
  start_regular := fun books => DirectLoop.toHead_regular _
  start_books := fun books => rfl
  start_holding := fun books => DirectLoop.toHead_holding _
  start_not_completed := fun books => DirectLoop.toHead_pc_ne_delete _
  proceed_cases := DirectLoop.proceed_cases
  receive_cases := by
    intro read decode input loop receiver _ hreceive
    rcases Option.map_eq_some_iff.mp hreceive with ⟨⟨receiver', rest⟩, hframe, rfl⟩
    exact DirectLoop.receive_cases hframe

/-! ## The relay loop -/

namespace RelayLoop

def holding (loop : RelayLoop) : Option (ℕ × Bytes) :=
  match loop.pc with
  | .write index plaintext => some (index, plaintext)
  | _ => none

def Regular (loop : RelayLoop) : Prop :=
  match loop.pc with
  | .finalSave | .complete | .delete => loop.books.pending = ∅
  | _ => True

variable (loop : RelayLoop)

@[simp] theorem toHead_books : loop.toHead.books = loop.books := rfl

theorem toHead_cases :
    loop.toHead.pc = .finalSave ∧ loop.books.pending = ∅ ∨
      loop.toHead.pc = .head := by
  unfold toHead
  by_cases hpending : loop.books.pending = ∅
  · exact Or.inl ⟨if_pos hpending, hpending⟩
  · exact Or.inr (if_neg hpending)

@[simp] theorem toHead_holding : loop.toHead.holding = none := by
  unfold holding
  rcases toHead_cases loop with ⟨hpc, _⟩ | hpc
  · rw [hpc]
  · rw [hpc]

theorem toHead_regular : loop.toHead.Regular := by
  unfold Regular
  rcases toHead_cases loop with ⟨hpc, hpending⟩ | hpc
  · rw [hpc]
    exact hpending
  · rw [hpc]
    trivial

theorem toHead_pc_ne_delete : loop.toHead.pc ≠ .delete := by
  rcases toHead_cases loop with ⟨hpc, _⟩ | hpc
  · simp [hpc]
  · simp [hpc]

theorem afterAck_cases :
    loop.afterAck = { loop with pc := .save } ∨
      loop.afterAck = loop.toHead := by
  unfold afterAck
  split
  · exact Or.inl rfl
  · exact Or.inr rfl

@[simp] theorem afterAck_books : loop.afterAck.books = loop.books := by
  rcases afterAck_cases loop with hsave | hhead
  · rw [hsave]
  · rw [hhead, toHead_books]

theorem afterAck_holding : loop.afterAck.holding = none := by
  rcases afterAck_cases loop with hsave | hhead
  · rw [hsave]
    rfl
  · rw [hhead, toHead_holding]

theorem afterAck_regular : loop.afterAck.Regular := by
  rcases afterAck_cases loop with hsave | hhead
  · rw [hsave]
    trivial
  · rw [hhead]
    exact toHead_regular _

theorem afterAck_pc_ne_delete : loop.afterAck.pc ≠ .delete := by
  rcases afterAck_cases loop with hsave | hhead
  · simp [hsave]
  · rw [hhead]
    exact toHead_pc_ne_delete _

end RelayLoop

def relayLoopKind : LoopKind RelayLoop where
  toReceiveLoop := relayKind
  receive := fun read decode input loop =>
    (loop.receive read decode input).map Prod.fst
  background := false
  books := RelayLoop.books
  holding := RelayLoop.holding
  writing := fun _ => false
  joins := fun _ => false
  completed := fun loop => loop.pc = .delete
  Regular := RelayLoop.Regular

namespace RelayLoop

variable {loop : RelayLoop} {receiver : RelayReceiver}
  {output : ReceiverOutput}

theorem proceedFacts_of_books_eq {next : RelayLoop} (hregular : next.Regular)
    (hbooks : next.books = loop.books) (hpc : next.pc ≠ .delete)
    (hfile : ∀ op, output ≠ .file op) (hcomplete : output ≠ .ctrl .complete)
    (hholding : next.holding = none) :
    relayLoopKind.ProceedFacts loop next output where
  regular := hregular
  manifest := congrArg Books.manifest hbooks
  outputPath := congrArg Books.outputPath hbooks
  chunkCount := congrArg (fun books => books.state.manifest) hbooks
  moves := Or.inr
    { output := hfile
      pending := congrArg Books.pending hbooks
      done := congrArg (fun books => books.state.chunksDone) hbooks
      holding := Or.inr hholding
      writing := Or.inl rfl }
  complete := by
    rintro (houtput | hnext)
    · exact absurd houtput hcomplete
    · exact absurd hnext hpc

theorem proceed_cases (hregular : loop.Regular)
    (hproceed : loop.proceed = some (receiver, output)) :
    (∃ next, receiver = .loop next ∧ loop.pc ≠ .delete ∧
        relayLoopKind.ProceedFacts loop next output) ∨
      loop.pc = .delete ∧ receiver = .returned loop.books ∧
        output = .delete loop.books.state := by
  unfold proceed at hproceed
  unfold Regular at hregular
  split at hproceed
  next => contradiction
  next index hpc =>
    cases hproceed
    refine Or.inl ⟨_, rfl, by simp [hpc],
      proceedFacts_of_books_eq (toHead_regular loop) rfl
        (toHead_pc_ne_delete loop) ?_ ?_ (toHead_holding loop)⟩
    · simp
    · simp
  next index plaintext hpc =>
    cases hproceed
    refine Or.inl ⟨_, rfl, by simp [hpc], ?_⟩
    constructor
    · trivial
    · rfl
    · rfl
    · rfl
    · refine Or.inl ⟨index, plaintext, ?_⟩
      constructor
      · simp [relayLoopKind, holding, hpc]
      · rfl
      · rfl
      · rfl
      · rfl
      · rfl
      · rfl
    · simp [relayLoopKind, recordChunk]
  next hpc =>
    cases hproceed
    refine Or.inl ⟨_, rfl, by simp [hpc],
      proceedFacts_of_books_eq (afterAck_regular loop)
        (afterAck_books loop) (afterAck_pc_ne_delete loop) ?_ ?_
        (afterAck_holding loop)⟩
    · simp
    · simp
  next hpc =>
    cases hproceed
    refine Or.inl ⟨_, rfl, by simp [hpc],
      proceedFacts_of_books_eq (toHead_regular loop) rfl
        (toHead_pc_ne_delete loop) ?_ ?_ (toHead_holding loop)⟩
    · simp
    · simp
  next hpc =>
    cases hproceed
    rw [hpc] at hregular
    refine Or.inl ⟨_, rfl, by simp [hpc],
      proceedFacts_of_books_eq hregular rfl ?_ ?_ ?_ rfl⟩
    · simp
    · simp
    · simp
  next hpc =>
    cases hproceed
    rw [hpc] at hregular
    refine Or.inl ⟨_, rfl, by simp [hpc], ?_⟩
    constructor
    · exact hregular
    · rfl
    · rfl
    · rfl
    · exact Or.inr ⟨by simp, rfl, rfl, Or.inr rfl, Or.inl rfl⟩
    · intro _
      exact ⟨rfl, rfl, hregular, by simp [relayLoopKind, holding, hpc], rfl⟩
  next hpc =>
    cases hproceed
    exact Or.inr ⟨hpc, rfl, rfl⟩

theorem receive_cases {read : ℕ → Bytes → Option Bytes}
    {decode : Bytes → Option ControlMessage} {input rest : Bytes}
    (hreceive : loop.receive read decode input = some (receiver, rest)) :
    (∃ error, receiver = .failed error) ∨
      ∃ next, receiver = .loop next ∧ loop.pc ≠ .delete ∧
        relayLoopKind.ReceiveFacts read loop next := by
  unfold receive at hreceive
  split at hreceive
  next hpc =>
    rcases Option.map_eq_some_iff.mp hreceive with
      ⟨⟨result, rest'⟩, hmessage, hresult⟩
    cases hresult
    cases houtcome : outcomeOf read loop.books.manifest result with
    | failed error => exact Or.inl ⟨error, rfl⟩
    | skipped =>
        refine Or.inr ⟨_, rfl, by simp [hpc], toHead_regular _, rfl, rfl, rfl,
          rfl, rfl, toHead_pc_ne_delete _, ?_⟩
        intro index plaintext hholding
        simp only [relayLoopKind, toHead_holding] at hholding
        contradiction
    | nack index =>
        refine Or.inr ⟨_, rfl, by simp [hpc], trivial, rfl, rfl, rfl, rfl,
          rfl, by simp [relayLoopKind], ?_⟩
        intro index' plaintext hholding
        simp [relayLoopKind, holding] at hholding
    | accepted index plaintext =>
        refine Or.inr ⟨_, rfl, by simp [hpc], trivial, rfl, rfl, rfl, rfl,
          rfl, by simp [relayLoopKind], ?_⟩
        intro index' plaintext' hholding
        simp only [relayLoopKind, holding, Option.some.injEq,
          Prod.mk.injEq] at hholding
        rcases hholding with ⟨rfl, rfl⟩
        cases result with
        | error error => contradiction
        | ok message =>
            rcases relayOutcome_accepted houtcome with ⟨_, _, hlength, hdecrypts⟩
            exact ⟨hlength, hdecrypts⟩
  next => contradiction

end RelayLoop

theorem relayLoopKind_laws : relayLoopKind.Laws where
  start_regular := fun books => RelayLoop.toHead_regular _
  start_books := fun books => rfl
  start_holding := fun books => RelayLoop.toHead_holding _
  start_not_completed := fun books => RelayLoop.toHead_pc_ne_delete _
  proceed_cases := RelayLoop.proceed_cases
  receive_cases := by
    intro read decode input loop receiver _ hreceive
    rcases Option.map_eq_some_iff.mp hreceive with ⟨⟨receiver', rest⟩, hframe, rfl⟩
    exact RelayLoop.receive_cases hframe

end P2pShare
