import P2pShare.ChunkBooks
import P2pShare.ChunkStream
import P2pShare.LoopKinds
import P2pShare.TransitionMachine
import Mathlib.Data.List.Pairwise

/-!
# The books of the direct receiver

`receive_file_direct` counts bytes in two places: `confirmed`, once a chunk is
recorded, and the global progress counter, while its sub-messages arrive.  On
any bytes of the data stream the two agree at the head of the loop.
-/

namespace P2pShare

open ByteStream TransitionMachine

/-! ## The counter over one frame -/

section Counter

variable {read : ℕ → Bytes → Option Bytes} {manifest : FileManifest}
  {pending : Finset ℕ} {bytesDone bytesDone' : ℕ} {input rest : Bytes}

theorem readSubs_counted {base chunkIndex remaining subIndex : ℕ}
    {isPending : Bool} {state final : SubState}
    (hcounted : state.Counted base)
    (hsubs : readSubs read chunkIndex isPending remaining subIndex state input =
      some (.ok final, rest)) : final.Counted base := by
  induction remaining generalizing subIndex state input with
  | zero =>
      simp only [readSubs, Option.some.injEq, Prod.mk.injEq,
        Except.ok.injEq] at hsubs
      rw [← hsubs.1]
      exact hcounted
  | succ remaining ih =>
      simp only [readSubs, Option.bind_eq_some_iff, Prod.exists] at hsubs
      obtain ⟨subLen, body, _, hbody⟩ := hsubs
      split at hbody
      · simp at hbody
      · simp only [Option.bind_eq_some_iff, Prod.exists] at hbody
        obtain ⟨sub, tail, _, htail⟩ := hbody
        exact ih (hcounted.take read chunkIndex isPending subIndex sub) htail

/-- The sub-messages of a chunk that is not wanted are drained. -/
theorem readSubs_drained {chunkIndex remaining subIndex : ℕ}
    {state final : SubState}
    (hsubs : readSubs read chunkIndex false remaining subIndex state input =
      some (.ok final, rest)) : final = state := by
  induction remaining generalizing subIndex input with
  | zero =>
      simp only [readSubs, Option.some.injEq, Prod.mk.injEq,
        Except.ok.injEq] at hsubs
      exact hsubs.1.symm
  | succ remaining ih =>
      simp only [readSubs, Option.bind_eq_some_iff, Prod.exists] at hsubs
      obtain ⟨subLen, body, _, hbody⟩ := hsubs
      split at hbody
      · simp at hbody
      · simp only [Option.bind_eq_some_iff, Prod.exists] at hbody
        obtain ⟨sub, tail, _, htail⟩ := hbody
        exact ih htail

theorem readParts_counted {frame : FrameRead}
    (hparts : readParts read manifest pending bytesDone input =
      some (.ok frame, rest)) :
    frame.state.Counted bytesDone ∧
      (frame.index ∉ pending → frame.state = .initial bytesDone) ∧
      ∃ body, readBe 4 input = some (frame.index, body) := by
  unfold readParts at hparts
  simp only [Option.bind_eq_some_iff, Prod.exists] at hparts
  obtain ⟨index, input₁, hindex, payloadLen, input₂, _, hparts⟩ := hparts
  split at hparts
  · simp at hparts
  · simp only [Option.bind_eq_some_iff, Option.map_eq_some_iff, Prod.exists,
      Prod.mk.injEq] at hparts
    obtain ⟨subCount, body, _, result, tail, hsubs, hresult, rfl⟩ := hparts
    cases result with
    | error error => simp [Except.map] at hresult
    | ok state =>
        simp only [Except.map, Except.ok.injEq] at hresult
        subst frame
        refine ⟨readSubs_counted (SubState.counted_initial bytesDone) hsubs, ?_,
          input₁, hindex⟩
        intro hskipped
        rw [decide_eq_false hskipped] at hsubs
        exact readSubs_drained hsubs

/-- What a frame adds to the progress counter. -/
def FrameOutcome.gain : FrameOutcome → ℕ
  | .accepted _ plaintext => plaintext.length
  | _ => 0

/-- A frame that is not accepted leaves the counter where it was, and an
accepted one adds its plaintext. -/
theorem readFrame_counted {outcome : FrameOutcome}
    (hread : readFrame read manifest pending bytesDone input =
      some ((outcome, bytesDone'), rest)) :
    bytesDone' = bytesDone + outcome.gain := by
  rw [readFrame_eq] at hread
  obtain ⟨⟨result, rest'⟩, hparts, hresult⟩ := Option.map_eq_some_iff.mp hread
  simp only [Prod.mk.injEq] at hresult
  obtain ⟨hfinish, _⟩ := hresult
  cases result with
  | error error =>
      cases hfinish
      rfl
  | ok frame =>
      obtain ⟨hcounted, hskipped, _⟩ := readParts_counted hparts
      have hprogress := hcounted.progress
      unfold finishParts finishFrame at hfinish
      dsimp only at hfinish
      by_cases hpending : frame.index ∈ pending
      · simp only [hpending, decide_true, Bool.not_true, Bool.false_eq_true,
          if_false] at hfinish
        split at hfinish
        next hfailed =>
          cases hfinish
          rw [hprogress, hcounted.failed hfailed]
          rfl
        next hok =>
          split at hfinish
          · cases hfinish
            simp only [FrameOutcome.gain]
            omega
          · cases hfinish
            rw [hprogress, hcounted.read (by simpa using hok)]
            rfl
      · simp only [hpending, decide_false, Bool.not_false, if_true] at hfinish
        cases hfinish
        rw [hskipped hpending]
        rfl

/-- A frame of a chunk that is not pending is skipped, or the receiver fails. -/
theorem readFrame_not_pending {outcome : FrameOutcome} {index : ℕ}
    {body : Bytes} (hindex : readBe 4 input = some (index, body))
    (hskipped : index ∉ pending)
    (hread : readFrame read manifest pending bytesDone input =
      some ((outcome, bytesDone'), rest)) :
    outcome = .skipped ∨ ∃ error, outcome = .failed error := by
  rw [readFrame_eq] at hread
  obtain ⟨⟨result, rest'⟩, hparts, hresult⟩ := Option.map_eq_some_iff.mp hread
  simp only [Prod.mk.injEq] at hresult
  obtain ⟨hfinish, _⟩ := hresult
  cases result with
  | error error =>
      cases hfinish
      exact Or.inr ⟨error, rfl⟩
  | ok frame =>
      obtain ⟨_, _, body', hindex'⟩ := readParts_counted hparts
      rw [hindex] at hindex'
      cases hindex'
      simp only [finishParts, finishFrame, hskipped, decide_false,
        Bool.not_false, if_true] at hfinish
      cases hfinish
      exact Or.inl rfl

end Counter

/-! ## The direct loop -/

namespace DirectLoop

variable {loop : DirectLoop} {receiver : DirectReceiver}
  {output : ReceiverOutput}

/-- The steps of the loop, by what they do to the books and report. -/
inductive BooksStep (loop : DirectLoop) :
    DirectReceiver → ReceiverOutput → Prop
  | spawn {index : ℕ} {plaintext : Bytes} :
      loop.pc = .spawn index plaintext →
      BooksStep loop (.loop (loop.recordChunk index plaintext))
        (.file (loop.books.writeOp index plaintext))
  | ack {next : DirectLoop} : loop.pc = .ack → next.books = loop.books →
      next.holding = none → next.pc ≠ .ack →
      BooksStep loop (.loop next) (.ctrl (.progress loop.books.confirmed))
  | other {next : DirectLoop} {output : ReceiverOutput} :
      loop.pc ≠ .ack → (∀ index plaintext, loop.pc ≠ .spawn index plaintext) →
      next.books = loop.books → next.holding = loop.holding →
      next.pc ≠ .ack → (∀ bytes, output ≠ .ctrl (.progress bytes)) →
      (∀ op, output ≠ .file op) → BooksStep loop (.loop next) output
  | returned {output : ReceiverOutput} : loop.pc = .delete →
      (∀ bytes, output ≠ .ctrl (.progress bytes)) →
      BooksStep loop (.returned loop.books) output

theorem toHead_pc_ne_ack (loop : DirectLoop) : loop.toHead.pc ≠ .ack := by
  obtain ⟨hpc, _⟩ | hpc := toHead_cases loop
  · simp [hpc]
  · simp [hpc]

theorem countSave_pc_ne_ack (loop : DirectLoop) : loop.countSave.pc ≠ .ack := by
  obtain hsave | hhead := countSave_cases loop
  · simp [hsave]
  · rw [hhead]
    exact toHead_pc_ne_ack _

theorem proceed_booksStep (hproceed : loop.proceed = some (receiver, output)) :
    loop.BooksStep receiver output := by
  unfold proceed at hproceed
  split at hproceed
  next => contradiction
  next index hpc =>
    cases hproceed
    refine .other (by simp [hpc]) (by simp [hpc]) rfl ?_
      (toHead_pc_ne_ack loop) (by simp) (by simp)
    rw [toHead_holding, holding, hpc]
  next index plaintext hpc =>
    cases hproceed
    refine .other (by simp [hpc]) (by simp [hpc]) rfl ?_ (by simp) (by simp)
      (by simp)
    simp [holding, hpc]
  next index plaintext hpc =>
    cases hproceed
    exact .spawn hpc
  next hpc =>
    cases hproceed
    exact .ack hpc (countSave_books _) (countSave_holding _)
      (countSave_pc_ne_ack _)
  next hpc =>
    cases hproceed
    refine .other (by simp [hpc]) (by simp [hpc]) rfl ?_
      (toHead_pc_ne_ack _) (by simp) (by simp)
    rw [toHead_holding, holding, hpc]
  next hpc =>
    cases hproceed
    refine .other (by simp [hpc]) (by simp [hpc]) rfl ?_ (by simp) (by simp)
      (by simp)
    simp [holding, hpc]
  next hpc =>
    cases hproceed
    refine .other (by simp [hpc]) (by simp [hpc]) rfl ?_ (by simp) (by simp)
      (by simp)
    simp [holding, hpc]
  next hpc =>
    cases hproceed
    refine .other (by simp [hpc]) (by simp [hpc]) rfl ?_ (by simp) (by simp)
      (by simp)
    simp [holding, hpc]
  next hpc =>
    cases hproceed
    exact .returned hpc (by simp)

/-- What a frame does to the loop, in terms of the counters. -/
structure FrameStep (read : ℕ → Bytes → Option Bytes) (loop next : DirectLoop) :
    Prop where
  books : next.books = { loop.books with bytesDone := next.books.bytesDone }
  pc : next.pc ≠ .ack
  idle : next.holding = none → next.books.bytesDone = loop.books.bytesDone
  held : ∀ index plaintext, next.holding = some (index, plaintext) →
    index ∈ loop.books.pending ∧
      plaintext.length = loop.books.manifest.sizeOf index ∧
      Decrypts read index plaintext ∧
      next.books.bytesDone = loop.books.bytesDone + plaintext.length

theorem receive_frameStep {read : ℕ → Bytes → Option Bytes}
    {input rest : Bytes}
    (hreceive : loop.receive read input = some (receiver, rest)) :
    (∃ error, receiver = .failed error) ∨
      ∃ next, receiver = .loop next ∧ loop.FrameStep read next := by
  unfold receive at hreceive
  split at hreceive
  next hpc =>
    obtain ⟨⟨⟨outcome, bytesDone⟩, rest'⟩, hframe, hresult⟩ :=
      Option.map_eq_some_iff.mp hreceive
    cases hresult
    have hcounted := readFrame_counted hframe
    cases outcome with
    | failed error => exact Or.inl ⟨error, rfl⟩
    | skipped =>
        refine Or.inr ⟨_, rfl, rfl, toHead_pc_ne_ack _, fun _ => hcounted, ?_⟩
        intro index plaintext hholding
        rw [toHead_holding] at hholding
        contradiction
    | nack index =>
        refine Or.inr ⟨_, rfl, rfl, by simp, fun _ => hcounted, ?_⟩
        intro index' plaintext hholding
        contradiction
    | accepted index plaintext =>
        obtain ⟨hpending, hlength, hdecrypts⟩ := readFrame_accepted hframe
        refine Or.inr ⟨_, rfl, rfl, by simp, fun hholding => ?_, ?_⟩
        · contradiction
        · intro index' plaintext' hholding
          cases hholding
          exact ⟨hpending, hlength, hdecrypts, hcounted⟩
  next => contradiction

/-- The head of `while !pending.is_empty()`, with its condition tested. -/
def AtHead (loop : DirectLoop) : Prop :=
  loop.pc = .head ∨ loop.pc = .finalJoin

theorem AtHead.holding (hhead : loop.AtHead) : loop.holding = none := by
  unfold DirectLoop.holding
  obtain hpc | hpc := hhead
  · rw [hpc]
  · rw [hpc]

end DirectLoop

/-! ## Runs on any bytes -/

/-- `entered` lists the chunks as they enter `chunks_done`, with their
plaintexts, and `reports` the values of the Progress messages. -/
structure DirectBooksRun where
  receiver : DirectReceiver
  unread : Bytes
  entered : List (ℕ × Bytes)
  reports : List ℕ

inductive DirectBooksEvent where
  | receiver (event : ReceiverEvent)
  | arrive (bytes : Bytes)
  | frame

namespace DirectBooksRun

variable (read : ℕ → Bytes → Option Bytes) (outputDir : PathResolution.RawPath)
  (manifest : FileManifest) (initial : Finset ℕ)

def enters (loop : DirectLoop) : ReceiverOutput → List (ℕ × Bytes)
  | .file (.write _ _ _) => loop.holding.toList
  | _ => []

def reported : ReceiverOutput → List ℕ
  | .ctrl (.progress bytes) => [bytes]
  | _ => []

def next (s : DirectBooksRun) : DirectBooksEvent → Option DirectBooksRun
  | .receiver event =>
      match s.receiver with
      | .loop loop =>
          ((Receiver.loop loop).step directKind outputDir event).map
            fun (receiver, output) =>
              { s with
                receiver
                entered := s.entered ++ enters loop output
                reports := s.reports ++ reported output }
      | _ => none
  | .arrive bytes => some { s with unread := s.unread ++ bytes }
  | .frame =>
      match s.receiver with
      | .loop loop =>
          (loop.receive read s.unread).map fun (receiver, rest) =>
            { s with receiver, unread := rest }
      | _ => none

/-- The loop begins with the books of a state of this manifest. -/
structure Starts (s : DirectBooksRun) : Prop where
  receiver : ∃ state : TransferState, state.manifest = manifest ∧
    state.chunksDone = initial ∧
    s.receiver = .loop (.start (.start outputDir manifest state))
  entered : s.entered = []
  reports : s.reports = []

def machine : Machine DirectBooksRun DirectBooksEvent where
  start := Starts outputDir manifest initial
  next := next read outputDir

/-- The chunks that entered did so once each, with plaintexts of their sizes,
and they are what `chunks_done` has beyond the initial chunks. -/
structure Entered (entered : List (ℕ × Bytes)) (done : Finset ℕ) : Prop where
  once : (entered.map Prod.fst).Nodup
  fresh : ∀ chunk ∈ entered, chunk.1 ∉ initial
  length : ∀ chunk ∈ entered, chunk.2.length = manifest.sizeOf chunk.1
  done : done = initial ∪ (entered.map Prod.fst).toFinset

/-- The books and the counter at the head of the loop. -/
structure HeadExact (s : DirectBooksRun) (books : Books) : Prop where
  chunks : BooksExact read manifest initial s.entered books.state.chunksDone
    books.pending books.confirmed
  entered : Entered manifest initial s.entered books.state.chunksDone
  bytesDone : books.bytesDone = books.confirmed

/-- A frame for a chunk that is not pending changes nothing here. -/
def SkipsUnwanted (s : DirectBooksRun) (loop : DirectLoop) : Prop :=
  ∀ index body t, readBe 4 s.unread = some (index, body) →
    index ∉ loop.books.pending → s.next read outputDir .frame = some t →
      t.entered = s.entered ∧ t.reports = s.reports ∧
        ((∃ next : DirectLoop, t.receiver = .loop next ∧
            next.books = loop.books) ∨
          ∃ error, t.receiver = .failed error)

/-! ## The invariant -/

/-- How far the counter is ahead of `confirmed`. -/
def ahead (loop : DirectLoop) : ℕ :=
  match loop.holding with
  | none => 0
  | some (_, plaintext) => plaintext.length

structure LoopSound (s : DirectBooksRun) (loop : DirectLoop) : Prop where
  offered : loop.books.manifest = manifest
  chunks : BooksExact read manifest initial s.entered
    loop.books.state.chunksDone loop.books.pending loop.books.confirmed
  entered : Entered manifest initial s.entered loop.books.state.chunksDone
  bytesDone : loop.books.bytesDone = loop.books.confirmed + ahead loop
  held : ∀ index plaintext, loop.holding = some (index, plaintext) →
    index ∈ loop.books.pending ∧ plaintext.length = manifest.sizeOf index ∧
      Decrypts read index plaintext
  reported : ∀ bytes ∈ s.reports, bytes ≤ loop.books.confirmed
  toReport : loop.pc = .ack → ∀ bytes ∈ s.reports, bytes < loop.books.confirmed

/-- The reports grow, and while the loop runs its books are sound. -/
structure Sound (s : DirectBooksRun) : Prop where
  reports : s.reports.Pairwise (· < ·)
  loop : ∀ loop, s.receiver = .loop loop →
    LoopSound read manifest initial s loop

variable {read outputDir manifest initial} {s t : DirectBooksRun}
  {loop : DirectLoop}

theorem Entered.insert {entered : List (ℕ × Bytes)} {done : Finset ℕ}
    (hentered : Entered manifest initial entered done) {index : ℕ}
    {plaintext : Bytes} (hnew : index ∉ done)
    (hlength : plaintext.length = manifest.sizeOf index) :
    Entered manifest initial (entered ++ [(index, plaintext)])
      (Insert.insert index done) := by
  have hdone := hentered.done
  have hinitial : index ∉ initial := by
    intro hmem
    apply hnew
    rw [hdone]
    exact Finset.mem_union_left _ hmem
  have hold : index ∉ entered.map Prod.fst := by
    intro hmem
    apply hnew
    rw [hdone]
    exact Finset.mem_union_right _ (List.mem_toFinset.mpr hmem)
  constructor
  · rw [List.map_append, List.nodup_append]
    refine ⟨hentered.once, by simp, ?_⟩
    intro other hother index' hindex' heq
    simp only [List.map_cons, List.map_nil, List.mem_singleton] at hindex'
    rw [heq, hindex'] at hother
    exact hold hother
  · intro chunk hchunk
    obtain hbefore | hlast := List.mem_append.mp hchunk
    · exact hentered.fresh chunk hbefore
    · rw [List.mem_singleton.mp hlast]
      exact hinitial
  · intro chunk hchunk
    obtain hbefore | hlast := List.mem_append.mp hchunk
    · exact hentered.length chunk hbefore
    · rw [List.mem_singleton.mp hlast]
      exact hlength
  · rw [List.map_append, List.toFinset_append, ← Finset.union_assoc, ← hdone]
    ext other
    simp

/-- Recording the chunk the loop holds. -/
theorem loopSound_record (hwithin : manifest.CountedWithin)
    (hsound : LoopSound read manifest initial s loop) {index : ℕ}
    {plaintext : Bytes} (hpc : loop.pc = .spawn index plaintext)
    {after : DirectBooksRun}
    (hentered : after.entered = s.entered ++ [(index, plaintext)])
    (hreports : after.reports = s.reports) :
    LoopSound read manifest initial after (loop.recordChunk index plaintext) := by
  have hholding : loop.holding = some (index, plaintext) := by
    simp [DirectLoop.holding, hpc]
  obtain ⟨hpending, hlength, hdecrypts⟩ := hsound.held index plaintext hholding
  have hexact := (booksExact_record_iff hwithin hsound.chunks hlength
    hdecrypts).mpr hpending
  have hnew : index ∉ loop.books.state.chunksDone := fun hdone =>
    Finset.disjoint_left.mp hsound.chunks.disjoint hdone hpending
  have hcounter := hsound.bytesDone
  simp only [ahead, hholding] at hcounter
  have hpos : 0 < plaintext.length := by
    rw [hlength]
    apply hwithin.sizeOf_pos
    have hmem : index ∈ Finset.range manifest.chunkCount := by
      rw [← hsound.chunks.union]
      exact Finset.mem_union_right _ hpending
    exact Finset.mem_range.mp hmem
  have hbooks := DirectLoop.recordChunk_books loop index plaintext
  have hidle := DirectLoop.recordChunk_holding loop index plaintext
  have hbelow : ∀ bytes ∈ after.reports,
      bytes < loop.books.confirmed + plaintext.length := by
    intro bytes hbytes
    rw [hreports] at hbytes
    have hle := hsound.reported bytes hbytes
    omega
  constructor
  · rw [hbooks]
    exact hsound.offered
  · rw [hbooks, hentered]
    exact hexact
  · rw [hbooks, hentered]
    exact hsound.entered.insert hnew hlength
  · rw [hbooks, ahead, hidle]
    exact hcounter
  · intro index' plaintext' hheld
    rw [hidle] at hheld
    contradiction
  · intro bytes hbytes
    rw [hbooks]
    exact (hbelow bytes hbytes).le
  · intro _ bytes hbytes
    rw [hbooks]
    exact hbelow bytes hbytes

/-- A step that leaves the books alone. -/
theorem loopSound_keep (hsound : LoopSound read manifest initial s loop)
    {next : DirectLoop} (hbooks : next.books = loop.books)
    (hholding : next.holding = loop.holding) (hpc : next.pc ≠ .ack)
    {after : DirectBooksRun} (hentered : after.entered = s.entered)
    (hreports : ∀ bytes ∈ after.reports, bytes ≤ loop.books.confirmed) :
    LoopSound read manifest initial after next := by
  constructor
  · rw [hbooks]
    exact hsound.offered
  · rw [hbooks, hentered]
    exact hsound.chunks
  · rw [hbooks, hentered]
    exact hsound.entered
  · rw [hbooks, ahead, hholding]
    exact hsound.bytesDone
  · intro index plaintext hheld
    rw [hholding] at hheld
    rw [hbooks]
    exact hsound.held index plaintext hheld
  · rw [hbooks]
    exact hreports
  · exact fun hack => absurd hack hpc

/-- A frame. -/
theorem loopSound_frame (hsound : LoopSound read manifest initial s loop)
    (hhead : loop.holding = none) {next : DirectLoop}
    (hframe : loop.FrameStep read next) {after : DirectBooksRun}
    (hentered : after.entered = s.entered)
    (hreports : after.reports = s.reports) :
    LoopSound read manifest initial after next := by
  have hcounter := hsound.bytesDone
  simp only [ahead, hhead, Nat.add_zero] at hcounter
  constructor
  · rw [hframe.books]
    exact hsound.offered
  · rw [hframe.books, hentered]
    exact hsound.chunks
  · rw [hframe.books, hentered]
    exact hsound.entered
  · have hconfirmed : next.books.confirmed = loop.books.confirmed := by
      rw [hframe.books]
    rw [hconfirmed, ← hcounter]
    unfold ahead
    cases hheld : next.holding with
    | none => exact hframe.idle hheld
    | some chunk =>
        obtain ⟨index, plaintext⟩ := chunk
        exact (hframe.held index plaintext hheld).2.2.2
  · intro index plaintext hheld
    obtain ⟨hpending, hlength, hdecrypts, _⟩ :=
      hframe.held index plaintext hheld
    rw [hsound.offered] at hlength
    rw [hframe.books]
    exact ⟨hpending, hlength, hdecrypts⟩
  · rw [hframe.books, hreports]
    exact hsound.reported
  · exact fun hack => absurd hack hframe.pc

theorem enters_of_not_file {output : ReceiverOutput}
    (houtput : ∀ op, output ≠ .file op) : enters loop output = [] := by
  unfold enters
  split
  next path offset bytes => exact absurd rfl (houtput _)
  next => rfl

theorem reported_of_not_progress {output : ReceiverOutput}
    (houtput : ∀ bytes, output ≠ .ctrl (.progress bytes)) :
    reported output = [] := by
  unfold reported
  split
  next bytes => exact absurd rfl (houtput bytes)
  next => rfl

/-- A report is larger than those before it. -/
theorem pairwise_reported (hsound : s.Sound read manifest initial)
    (hstate : s.receiver = .loop loop) {receiver : DirectReceiver}
    {output : ReceiverOutput} (hstep : loop.BooksStep receiver output) :
    (s.reports ++ reported output).Pairwise (· < ·) := by
  have hloop := hsound.loop loop hstate
  cases hstep with
  | spawn hpc =>
      rw [show reported _ = [] from rfl, List.append_nil]
      exact hsound.reports
  | ack hpc hbooks hidle hnext =>
      rw [List.pairwise_append]
      refine ⟨hsound.reports, List.pairwise_singleton _ _, ?_⟩
      intro bytes hbytes last hlast
      rw [List.mem_singleton.mp hlast]
      exact hloop.toReport hpc bytes hbytes
  | other hpc hspawn hbooks hholding hnext houtput hfile =>
      rw [reported_of_not_progress houtput, List.append_nil]
      exact hsound.reports
  | returned hpc houtput =>
      rw [reported_of_not_progress houtput, List.append_nil]
      exact hsound.reports

theorem sound_proceed (hwithin : manifest.CountedWithin)
    (hsound : s.Sound read manifest initial)
    (hstate : s.receiver = .loop loop) {receiver : DirectReceiver}
    {output : ReceiverOutput} (hstep : loop.BooksStep receiver output) :
    Sound read manifest initial
      { s with
        receiver
        entered := s.entered ++ enters loop output
        reports := s.reports ++ reported output } := by
  have hloop := hsound.loop loop hstate
  refine ⟨pairwise_reported hsound hstate hstep, ?_⟩
  intro after hafter
  dsimp only at hafter
  subst hafter
  cases hstep with
  | @spawn index plaintext hpc =>
      apply loopSound_record hwithin hloop hpc
      · simp [enters, Books.writeOp, DirectLoop.holding, hpc]
      · simp [reported]
  | ack hpc hbooks hidle hnext =>
      have hholding : loop.holding = none := by
        simp [DirectLoop.holding, hpc]
      apply loopSound_keep hloop hbooks (hidle.trans hholding.symm) hnext
      · simp [enters]
      · intro bytes hbytes
        obtain hbefore | hlast := List.mem_append.mp hbytes
        · exact hloop.reported bytes hbefore
        · rw [List.mem_singleton.mp hlast]
  | other hpc hspawn hbooks hholding hnext houtput hfile =>
      apply loopSound_keep hloop hbooks hholding hnext
      · rw [enters_of_not_file hfile, List.append_nil]
      · intro bytes hbytes
        rw [reported_of_not_progress houtput, List.append_nil] at hbytes
        exact hloop.reported bytes hbytes

theorem sound_next (hwithin : manifest.CountedWithin)
    (hsound : s.Sound read manifest initial) {event : DirectBooksEvent}
    (hnext : s.next read outputDir event = some t) :
    t.Sound read manifest initial := by
  cases event with
  | receiver event =>
      simp only [next] at hnext
      split at hnext
      next loop hstate =>
        obtain ⟨⟨receiver, output⟩, hstep, rfl⟩ :=
          Option.map_eq_some_iff.mp hnext
        cases event with
        | proceed =>
            exact sound_proceed hwithin hsound hstate
              (DirectLoop.proceed_booksStep hstep)
        | fail error effect =>
            simp only [Receiver.step, Receiver.fail] at hstep
            split at hstep
            next proceeded output' hproceed =>
              cases hstep
              have hbooks : loop.BooksStep proceeded output :=
                DirectLoop.proceed_booksStep hproceed
              exact ⟨pairwise_reported hsound hstate hbooks,
                fun _ hloop => by cases hloop⟩
            next =>
              cases hstep
              refine ⟨?_, fun _ hloop => by cases hloop⟩
              simpa [reported] using hsound.reports
        | received result => contradiction
        | lookup pathExists files => contradiction
      next => contradiction
  | arrive bytes =>
      cases hnext
      refine ⟨hsound.reports, fun loop hstate => ?_⟩
      have hloop := hsound.loop loop hstate
      exact ⟨hloop.offered, hloop.chunks, hloop.entered, hloop.bytesDone,
        hloop.held, hloop.reported, hloop.toReport⟩
  | frame =>
      simp only [next] at hnext
      split at hnext
      next loop hstate =>
        obtain ⟨⟨receiver, rest⟩, hreceive, rfl⟩ :=
          Option.map_eq_some_iff.mp hnext
        refine ⟨hsound.reports, ?_⟩
        intro after hafter
        dsimp only at hafter
        subst hafter
        have hidle : loop.holding = none := by
          unfold DirectLoop.receive at hreceive
          split at hreceive
          next hpc => simp [DirectLoop.holding, hpc]
          next => contradiction
        obtain ⟨error, hfailed⟩ | ⟨next, hnext, hframe⟩ :=
          DirectLoop.receive_frameStep hreceive
        · contradiction
        · cases hnext
          exact loopSound_frame (hsound.loop loop hstate) hidle hframe rfl rfl
      next => contradiction

theorem sound_start (hwithin : manifest.CountedWithin)
    (hinside : initial ⊆ Finset.range manifest.chunkCount)
    (hstart : s.Starts outputDir manifest initial) :
    s.Sound read manifest initial := by
  obtain ⟨state, hmanifest, hinitial, hreceiver⟩ := hstart.receiver
  have hentered := hstart.entered
  have hreports := hstart.reports
  constructor
  · rw [hreports]
    exact List.Pairwise.nil
  · intro loop hloop
    rw [hreceiver] at hloop
    cases hloop
    have hpending : state.missingChunks.toFinset =
        Finset.range manifest.chunkCount \ initial := by
      ext index
      simp [hmanifest, hinitial]
    have hexact : BooksExact read manifest initial [] initial
        state.missingChunks.toFinset (initialDone manifest state) :=
      booksExact_start hwithin hinside hpending (by
        rw [initialDone, hinitial])
    have hidle : (DirectLoop.start (.start outputDir manifest state)).holding =
        none := DirectLoop.toHead_holding _
    constructor
    · rfl
    · rw [hentered]
      rw [← hinitial] at hexact ⊢
      exact hexact
    · rw [hentered]
      refine ⟨List.nodup_nil, by simp, by simp, ?_⟩
      change state.chunksDone = _
      simpa using hinitial
    · rw [ahead, hidle]
      rfl
    · intro index plaintext hheld
      rw [hidle] at hheld
      contradiction
    · simp [hreports]
    · simp [hreports]

theorem sound_of_reachable (hwithin : manifest.CountedWithin)
    (hinside : initial ⊆ Finset.range manifest.chunkCount)
    (hreach : (machine read outputDir manifest initial).Reachable s) :
    s.Sound read manifest initial := by
  apply hreach.invariant
  · exact fun s₀ hstart => sound_start hwithin hinside hstart
  · exact fun u event v hu hnext => sound_next hwithin hu hnext

theorem skipsUnwanted (hstate : s.receiver = .loop loop) :
    s.SkipsUnwanted read outputDir loop := by
  intro index body t hindex hunwanted hnext
  simp only [next, hstate] at hnext
  obtain ⟨⟨receiver, rest⟩, hreceive, rfl⟩ := Option.map_eq_some_iff.mp hnext
  refine ⟨rfl, rfl, ?_⟩
  unfold DirectLoop.receive at hreceive
  split at hreceive
  next hpc =>
    obtain ⟨⟨⟨outcome, bytesDone⟩, rest'⟩, hframe, hresult⟩ :=
      Option.map_eq_some_iff.mp hreceive
    cases hresult
    have hcounted := readFrame_counted hframe
    obtain rfl | ⟨error, rfl⟩ :=
      readFrame_not_pending hindex hunwanted hframe
    · refine Or.inl ⟨_, rfl, ?_⟩
      rw [DirectLoop.toHead_books]
      have hsame : bytesDone = loop.books.bytesDone := hcounted
      rw [hsame]
    · exact Or.inr ⟨error, rfl⟩
  next => contradiction

end DirectBooksRun

/-- On any bytes of the data stream the books of the direct receiver are exact
at every head of its loop, the reports grow, and frames of chunks that are not
pending change nothing. -/
theorem direct_books_exact (source : ManifestSource) {initial : Finset ℕ}
    (hinside : initial ⊆ Finset.range (buildManifest source).chunkCount)
    (read : ℕ → Bytes → Option Bytes) (outputDir : PathResolution.RawPath)
    {s : DirectBooksRun}
    (hreach : (DirectBooksRun.machine read outputDir (buildManifest source)
      initial).Reachable s) :
    s.reports.Pairwise (· < ·) ∧
      ∀ loop, s.receiver = .loop loop → loop.AtHead →
        s.HeadExact read (buildManifest source) initial loop.books ∧
          s.SkipsUnwanted read outputDir loop := by
  have hsound := DirectBooksRun.sound_of_reachable
    (buildManifest_countedWithin source) hinside hreach
  refine ⟨hsound.reports, ?_⟩
  intro loop hstate hhead
  have hloop := hsound.loop loop hstate
  refine ⟨⟨hloop.chunks, hloop.entered, ?_⟩,
    DirectBooksRun.skipsUnwanted hstate⟩
  have hcounter := hloop.bytesDone
  simpa only [DirectBooksRun.ahead, hhead.holding, Nat.add_zero] using hcounter

/-! ## A bad frame and a good one -/

def sampleDirectStart : DirectBooksRun where
  receiver := .loop (.start (.start ['d'] (buildManifest sampleSource)
    (.new (buildManifest sampleSource) ['d', '/', 'a'])))
  unread := []
  entered := []
  reports := []

theorem sampleDirectStart_starts :
    sampleDirectStart.Starts ['d'] (buildManifest sampleSource) ∅ where
  receiver := ⟨_, rfl, rfl, rfl⟩
  entered := rfl
  reports := rfl

/-- A frame whose second sub-message is not authentic, and then the chunk. -/
def nackedThenGood : Option DirectBooksRun :=
  (DirectBooksRun.machine tagRead ['d'] (buildManifest sampleSource) ∅).runFrom
    sampleDirectStart
    [.arrive (Frame.mk 0 [lookupNoise.cipher 0 [1], [2]]).bytes, .frame,
      .receiver .proceed, .arrive (chunkFrame lookupNoise 0 [1, 2, 3]).bytes,
      .frame, .receiver .proceed, .receiver .proceed, .receiver .proceed]

def DirectBooksRun.summary (s : DirectBooksRun) : Option (ℕ × ℕ) :=
  match s.receiver with
  | .loop loop =>
      if loop.pc = .finalJoin then
        some (loop.books.confirmed, loop.books.bytesDone)
      else none
  | _ => none

theorem nackedThenGood_reports :
    nackedThenGood.map (fun s => (s.reports, s.summary)) =
      some ([3], some (3, 3)) := by
  decide +kernel

theorem direct_books_exact_sample :
    ∃ s, nackedThenGood = some s ∧ s.reports = [3] ∧
      s.reports.Pairwise (· < ·) ∧
      ∀ loop, s.receiver = .loop loop → loop.AtHead →
        s.HeadExact tagRead (buildManifest sampleSource) ∅ loop.books ∧
          s.SkipsUnwanted tagRead ['d'] loop := by
  obtain ⟨s, hs, hfields⟩ := Option.map_eq_some_iff.mp nackedThenGood_reports
  exact ⟨s, hs, congrArg Prod.fst hfields, direct_books_exact sampleSource
    (Finset.empty_subset _) tagRead ['d']
    (Machine.Reachable.of_runFrom sampleDirectStart_starts hs)⟩

end P2pShare
