import P2pShare.ChunkStream
import P2pShare.Receiver
import P2pShare.TransitionMachine

/-!
# Where a frame of the data stream ends

The direct receiver checks `payload_len` against a cap and then reads as many
bytes as the count of sub-messages and their own lengths ask for.  A peer that
chooses the bytes of the stream decides whether the two agree.
-/

namespace P2pShare

open ByteStream PathResolution TransitionMachine

/-! ## The lengths in a frame -/

structure Header where
  index : ℕ
  payloadLen : ℕ
  subCount : ℕ
  deriving DecidableEq

/-- The fields before the first sub-message. -/
def readHeader (input : Bytes) : Option (Header × Bytes) :=
  (readBe 4 input).bind fun (index, input) =>
    (readBe 4 input).bind fun (payloadLen, input) =>
      (readBe 2 input).map fun (subCount, input) =>
        (⟨index, payloadLen, subCount⟩, input)

/-- What this many sub-messages take with their length fields, if all are
there. -/
def subLengths : ℕ → Bytes → Option ℕ
  | 0, _ => some 0
  | remaining + 1, input =>
      (readBe 4 input).bind fun (subLen, input) =>
        if subLen > maxMessage then none
        else
          (readExact subLen input).bind fun (_, input) =>
            (subLengths remaining input).map fun total => 4 + subLen + total

/-- What the sub-messages that are there take. -/
def lengthsSoFar : ℕ → Bytes → ℕ
  | 0, _ => 0
  | remaining + 1, input =>
      match readBe 4 input with
      | none => 0
      | some (subLen, input) =>
          if subLen > maxMessage then 0
          else
            match readExact subLen input with
            | none => 0
            | some (_, input) => 4 + subLen + lengthsSoFar remaining input

/-- A frame that is read to its end ends where its header says. -/
def Delimited (manifest : FileManifest) (input : Bytes) : Prop :=
  ∀ header body total, readHeader input = some (header, body) →
    header.payloadLen ≤ maxPayload manifest →
    subLengths header.subCount body = some total →
    2 + total = header.payloadLen

/-- The sub-messages that are there do not pass the end the header gives. -/
def WithinDeclared (input : Bytes) : Prop :=
  ∀ header body, readHeader input = some (header, body) →
    2 + lengthsSoFar header.subCount body ≤ header.payloadLen

/-! ## What the loop holds of a frame that has not all arrived -/

def readSubsSoFar (read : ℕ → Bytes → Option Bytes) (chunkIndex : ℕ)
    (isPending : Bool) : ℕ → ℕ → SubState → Bytes → SubState
  | 0, _, state, _ => state
  | remaining + 1, subIndex, state, input =>
      match readBe 4 input with
      | none => state
      | some (subLen, input) =>
          if subLen > maxMessage then state
          else
            match readExact subLen input with
            | none => state
            | some (sub, input) =>
                readSubsSoFar read chunkIndex isPending remaining
                  (subIndex + 1)
                  (state.take read chunkIndex isPending subIndex sub) input

/-- The plaintext buffered for the chunk of the frame at the front of these
bytes. -/
def bufferedSoFar (read : ℕ → Bytes → Option Bytes) (manifest : FileManifest)
    (pending : Finset ℕ) (bytesDone : ℕ) (input : Bytes) : Bytes :=
  match readHeader input with
  | none => []
  | some (header, body) =>
      if header.payloadLen > maxPayload manifest then []
      else
        (readSubsSoFar read header.index (decide (header.index ∈ pending))
          header.subCount 0 (.initial bytesDone) body).plaintext

/-! ## The receiver on a stream of any bytes -/

/-- `position` counts the bytes of the frames processed, and `boundary` is where
their headers put the end of the last of them; `buffered` and `limit` are its
plaintext and `max_payload`. -/
structure StreamRun where
  receiver : DirectReceiver
  unread : Bytes
  position : ℕ
  boundary : ℕ
  buffered : ℕ
  limit : ℕ

inductive StreamEvent where
  | receiver (event : ReceiverEvent)
  | frame

namespace StreamRun

variable (read : ℕ → Bytes → Option Bytes) (outputDir : RawPath)
  (stream : Bytes)

/-- One pass of the frame loop; at the end of the stream `read_exact` fails. -/
def afterFrame (s : StreamRun) (loop : DirectLoop) : StreamRun :=
  let books := loop.books
  match readParts read books.manifest books.pending books.bytesDone s.unread with
  | none => { s with receiver := .failed .io }
  | some (.error error, _) => { s with receiver := .failed error }
  | some (.ok frame, rest) =>
      let (outcome, bytesDone) :=
        finishParts books.manifest books.pending books.bytesDone (.ok frame)
      { receiver :=
          { loop with books := { books with bytesDone } }.afterFrame outcome
        unread := rest
        position := s.position + (s.unread.length - rest.length)
        boundary := s.boundary + (8 + frame.payloadLen)
        buffered :=
          (bufferedSoFar read books.manifest books.pending books.bytesDone
            s.unread).length
        limit := maxPayload books.manifest }

def next (s : StreamRun) : StreamEvent → Option StreamRun
  | .receiver event =>
      (s.receiver.step directKind outputDir event).map fun (receiver, _) =>
        { s with receiver }
  | .frame =>
      match s.receiver with
      | .loop loop =>
          if loop.pc = .head then some (s.afterFrame read loop) else none
      | _ => none

def initial (stream : Bytes) : StreamRun where
  receiver := .setup .acceptBi
  unread := stream
  position := 0
  boundary := 0
  buffered := 0
  limit := 0

def machine : Machine StreamRun StreamEvent where
  start := fun s => s = initial stream
  next := next read outputDir

/-- Each frame took the bytes its header declared, and the plaintext buffered
for the last of them was within the cap. -/
structure AtBoundary (s : StreamRun) : Prop where
  position : s.position = s.boundary
  buffered : s.buffered ≤ s.limit

/-- The frame about to be read ends where its header says. -/
def Declares (s : StreamRun) : StreamEvent → Prop
  | .receiver _ => True
  | .frame =>
      match s.receiver with
      | .loop loop => Delimited loop.books.manifest s.unread
      | _ => True

end StreamRun

/-! ## Lengths -/

section Lengths

variable {read : ℕ → Bytes → Option Bytes}

theorem readBe_length {width value : ℕ} {input rest : Bytes}
    (hread : readBe width input = some (value, rest)) :
    input.length = width + rest.length := by
  obtain ⟨bytes, rfl, hlength, _⟩ := readBe_eq_some hread
  rw [List.length_append, hlength]

theorem SubState.length_take_le
    (hread : ∀ nonce ciphertext plaintext,
      read nonce ciphertext = some plaintext →
        plaintext.length + 16 = ciphertext.length)
    (chunkIndex : ℕ) (isPending : Bool) (subIndex : ℕ) (sub : Bytes)
    (state : SubState) :
    (state.take read chunkIndex isPending subIndex sub).plaintext.length ≤
      state.plaintext.length + sub.length := by
  unfold SubState.take
  split
  · exact Nat.le_add_right _ _
  · split
    next plain hplain =>
      have hlength := hread _ _ _ hplain
      rw [List.length_append]
      omega
    next => exact Nat.le_add_right _ _

/-- A sub-message loop that comes to its end, in terms of the lengths. -/
theorem readSubs_lengths
    (hread : ∀ nonce ciphertext plaintext,
      read nonce ciphertext = some plaintext →
        plaintext.length + 16 = ciphertext.length)
    {chunkIndex remaining subIndex : ℕ} {isPending : Bool}
    {state final : SubState} {input rest : Bytes}
    (hsubs : readSubs read chunkIndex isPending remaining subIndex state input =
      some (.ok final, rest)) :
    ∃ total, subLengths remaining input = some total ∧
      input.length = total + rest.length ∧
      final.plaintext.length ≤ state.plaintext.length + total := by
  induction remaining generalizing subIndex state input with
  | zero =>
      simp only [readSubs, Option.some.injEq, Prod.mk.injEq,
        Except.ok.injEq] at hsubs
      obtain ⟨rfl, rfl⟩ := hsubs
      exact ⟨0, rfl, (Nat.zero_add _).symm, le_rfl⟩
  | succ remaining ih =>
      simp only [readSubs, Option.bind_eq_some_iff, Prod.exists] at hsubs
      obtain ⟨subLen, body, hlen, hbody⟩ := hsubs
      split at hbody
      · simp at hbody
      next hallowed =>
        simp only [Option.bind_eq_some_iff, Prod.exists] at hbody
        obtain ⟨sub, tail, hexact, htail⟩ := hbody
        obtain ⟨total, htotal, hrest, hplain⟩ := ih htail
        obtain ⟨hsplit, hsub⟩ := readExact_eq_some.mp hexact
        have hinput := readBe_length hlen
        have htake := SubState.length_take_le hread chunkIndex isPending
          subIndex sub state
        refine ⟨4 + subLen + total, ?_, ?_, ?_⟩
        · rw [subLengths, hlen, Option.bind_some]
          dsimp only
          rw [if_neg hallowed, hexact, Option.bind_some]
          dsimp only
          rw [htotal, Option.map_some]
        · rw [hinput, hsplit, List.length_append]
          omega
        · omega

/-- Sub-messages that are all there are all read. -/
theorem readSubs_of_subLengths (read : ℕ → Bytes → Option Bytes)
    (chunkIndex : ℕ) (isPending : Bool) (subIndex : ℕ) (state : SubState)
    {remaining total : ℕ} {input : Bytes}
    (htotal : subLengths remaining input = some total) :
    ∃ final rest, readSubs read chunkIndex isPending remaining subIndex state
      input = some (.ok final, rest) := by
  induction remaining generalizing subIndex state total input with
  | zero => exact ⟨state, input, rfl⟩
  | succ remaining ih =>
      simp only [subLengths, Option.bind_eq_some_iff, Prod.exists] at htotal
      obtain ⟨subLen, body, hlen, hbody⟩ := htotal
      split at hbody
      · contradiction
      next hallowed =>
        simp only [Option.bind_eq_some_iff, Option.map_eq_some_iff,
          Prod.exists] at hbody
        obtain ⟨sub, tail, hexact, others, hothers, _⟩ := hbody
        rw [readSubs, hlen, Option.bind_some]
        dsimp only
        rw [if_neg hallowed, hexact, Option.bind_some]
        exact ih (subIndex + 1) _ hothers

theorem readParts_of_subLengths {manifest : FileManifest}
    (pending : Finset ℕ) (bytesDone : ℕ) {input body : Bytes} {header : Header}
    {total : ℕ} (hheader : readHeader input = some (header, body))
    (hallowed : header.payloadLen ≤ maxPayload manifest)
    (htotal : subLengths header.subCount body = some total) :
    ∃ frame rest, readParts read manifest pending bytesDone input =
      some (.ok frame, rest) := by
  unfold readHeader at hheader
  simp only [Option.bind_eq_some_iff, Option.map_eq_some_iff,
    Prod.exists] at hheader
  obtain ⟨index, input₁, hindex, payloadLen, input₂, hpayload, subCount, body',
    hcount, hfields⟩ := hheader
  cases hfields
  obtain ⟨final, rest, hsubs⟩ := readSubs_of_subLengths read index
    (decide (index ∈ pending)) 0 (.initial bytesDone) htotal
  refine ⟨⟨index, payloadLen, final⟩, rest, ?_⟩
  unfold readParts
  rw [hindex, Option.bind_some]
  dsimp only
  rw [hpayload, Option.bind_some]
  dsimp only
  rw [if_neg (Nat.not_lt.mpr hallowed), hcount, Option.bind_some]
  dsimp only
  rw [hsubs]
  rfl

theorem readParts_lengths
    (hread : ∀ nonce ciphertext plaintext,
      read nonce ciphertext = some plaintext →
        plaintext.length + 16 = ciphertext.length)
    {manifest : FileManifest} {pending : Finset ℕ} {bytesDone : ℕ}
    {input rest : Bytes} {frame : FrameRead}
    (hparts : readParts read manifest pending bytesDone input =
      some (.ok frame, rest)) :
    ∃ header body total, readHeader input = some (header, body) ∧
      header.payloadLen = frame.payloadLen ∧
      frame.payloadLen ≤ maxPayload manifest ∧
      subLengths header.subCount body = some total ∧
      input.length = 10 + total + rest.length ∧
      frame.state.plaintext.length ≤ total := by
  unfold readParts at hparts
  simp only [Option.bind_eq_some_iff, Prod.exists] at hparts
  obtain ⟨index, input₁, hindex, payloadLen, input₂, hpayload, hparts⟩ := hparts
  split at hparts
  · simp at hparts
  next hallowed =>
    simp only [Option.bind_eq_some_iff, Option.map_eq_some_iff, Prod.exists,
      Prod.mk.injEq] at hparts
    obtain ⟨subCount, body, hcount, result, tail, hsubs, hresult, rfl⟩ := hparts
    cases result with
    | error error => simp [Except.map] at hresult
    | ok state =>
        simp only [Except.map, Except.ok.injEq] at hresult
        subst frame
        obtain ⟨total, htotal, hrest, hplain⟩ := readSubs_lengths hread hsubs
        have hfirst := readBe_length hindex
        have hsecond := readBe_length hpayload
        have hthird := readBe_length hcount
        refine ⟨⟨index, payloadLen, subCount⟩, body, total, ?_, rfl,
          Nat.le_of_not_lt hallowed, htotal, ?_, ?_⟩
        · simp [readHeader, hindex, hpayload, hcount]
        · omega
        · simpa [SubState.initial] using hplain

/-- What is buffered came out of the sub-messages that are there. -/
theorem length_readSubsSoFar_le
    (hread : ∀ nonce ciphertext plaintext,
      read nonce ciphertext = some plaintext →
        plaintext.length + 16 = ciphertext.length)
    (chunkIndex : ℕ) (isPending : Bool) (remaining subIndex : ℕ)
    (state : SubState) (input : Bytes) :
    (readSubsSoFar read chunkIndex isPending remaining subIndex state
        input).plaintext.length ≤
      state.plaintext.length + lengthsSoFar remaining input := by
  induction remaining generalizing subIndex state input with
  | zero => exact Nat.le_add_right _ _
  | succ remaining ih =>
      rw [readSubsSoFar, lengthsSoFar]
      cases readBe 4 input with
      | none => exact Nat.le_add_right _ _
      | some head =>
          obtain ⟨subLen, body⟩ := head
          dsimp only
          split
          · exact Nat.le_add_right _ _
          · cases hexact : readExact subLen body with
            | none => exact Nat.le_add_right _ _
            | some head =>
                obtain ⟨sub, tail⟩ := head
                have hsub := (readExact_eq_some.mp hexact).2
                have htake := SubState.length_take_le hread chunkIndex isPending
                  subIndex sub state
                have hothers := ih (subIndex + 1)
                  (state.take read chunkIndex isPending subIndex sub) tail
                dsimp only
                omega

theorem length_bufferedSoFar_le
    (hread : ∀ nonce ciphertext plaintext,
      read nonce ciphertext = some plaintext →
        plaintext.length + 16 = ciphertext.length)
    (manifest : FileManifest) (pending : Finset ℕ) (bytesDone : ℕ)
    {input : Bytes} (hwithin : WithinDeclared input) :
    (bufferedSoFar read manifest pending bytesDone input).length ≤
      maxPayload manifest := by
  unfold bufferedSoFar
  split
  · exact Nat.zero_le _
  next header body hheader =>
    split
    · exact Nat.zero_le _
    next hallowed =>
      have hdeclared := hwithin header body hheader
      have hlength := length_readSubsSoFar_le hread header.index
        (decide (header.index ∈ pending)) header.subCount 0 (.initial bytesDone)
        body
      simp only [SubState.initial, List.length_nil, Nat.zero_add] at hlength ⊢
      omega

/-- Once the loop has come to its end there is nothing else that it holds. -/
theorem readSubsSoFar_of_readSubs {chunkIndex remaining subIndex : ℕ}
    {isPending : Bool} {state final : SubState} {input rest : Bytes}
    (hsubs : readSubs read chunkIndex isPending remaining subIndex state input =
      some (.ok final, rest)) :
    readSubsSoFar read chunkIndex isPending remaining subIndex state input =
      final := by
  induction remaining generalizing subIndex state input with
  | zero =>
      simp only [readSubs, Option.some.injEq, Prod.mk.injEq,
        Except.ok.injEq] at hsubs
      exact hsubs.1
  | succ remaining ih =>
      simp only [readSubs, Option.bind_eq_some_iff, Prod.exists] at hsubs
      obtain ⟨subLen, body, hlen, hbody⟩ := hsubs
      split at hbody
      · simp at hbody
      next hallowed =>
        simp only [Option.bind_eq_some_iff, Prod.exists] at hbody
        obtain ⟨sub, tail, hexact, htail⟩ := hbody
        rw [readSubsSoFar, hlen]
        dsimp only
        rw [if_neg hallowed, hexact]
        exact ih htail

/-- The plaintext of a frame that was read is what the loop held. -/
theorem bufferedSoFar_of_readParts {manifest : FileManifest}
    {pending : Finset ℕ} {bytesDone : ℕ} {input rest : Bytes}
    {frame : FrameRead}
    (hparts : readParts read manifest pending bytesDone input =
      some (.ok frame, rest)) :
    bufferedSoFar read manifest pending bytesDone input =
      frame.state.plaintext := by
  unfold readParts at hparts
  simp only [Option.bind_eq_some_iff, Prod.exists] at hparts
  obtain ⟨index, input₁, hindex, payloadLen, input₂, hpayload, hparts⟩ := hparts
  split at hparts
  · simp at hparts
  next hallowed =>
    simp only [Option.bind_eq_some_iff, Option.map_eq_some_iff, Prod.exists,
      Prod.mk.injEq] at hparts
    obtain ⟨subCount, body, hcount, result, tail, hsubs, hresult, rfl⟩ := hparts
    cases result with
    | error error => simp [Except.map] at hresult
    | ok state =>
        simp only [Except.map, Except.ok.injEq] at hresult
        subst frame
        have hheader : readHeader input =
            some (⟨index, payloadLen, subCount⟩, body) := by
          simp [readHeader, hindex, hpayload, hcount]
        unfold bufferedSoFar
        rw [hheader]
        dsimp only
        rw [if_neg hallowed, readSubsSoFar_of_readSubs hsubs]

/-- The relay reader takes the bytes that `payload_len` says. -/
theorem recvMsg_chunk_length {decode : Bytes → Option ControlMessage}
    {input rest ciphertext : Bytes} {index : ℕ}
    (hrecv :
      recvMsg read decode input = some (.ok (.chunk index ciphertext), rest)) :
    ∃ type body payloadLen tail, readBe 1 input = some (type, body) ∧
      (readBe 4 body).bind (fun (_, fields) => readBe 4 fields) =
        some (payloadLen, tail) ∧
      ciphertext.length = payloadLen ∧
      input.length = 9 + payloadLen + rest.length := by
  unfold recvMsg at hrecv
  simp only [Option.bind_eq_some_iff, Prod.exists] at hrecv
  obtain ⟨type, body, htype, hbody⟩ := hrecv
  split at hbody
  · simp only [Option.map_eq_some_iff, Prod.exists, Prod.mk.injEq] at hbody
    obtain ⟨result, tail, _, hresult, _⟩ := hbody
    cases result <;> simp [Except.map] at hresult
  · split at hbody
    · simp only [Option.bind_eq_some_iff, Option.map_eq_some_iff, Prod.exists,
        Prod.mk.injEq, Except.ok.injEq, RelayMsg.chunk.injEq] at hbody
      obtain ⟨chunkIndex, fields, hindex, payloadLen, tail, hpayload, bytes,
        rest', hexact, ⟨rfl, rfl⟩, rfl⟩ := hbody
      obtain ⟨hsplit, hlength⟩ := readExact_eq_some.mp hexact
      have hfirst := readBe_length htype
      have hsecond := readBe_length hindex
      have hthird := readBe_length hpayload
      refine ⟨type, body, payloadLen, tail, htype, ?_, hlength, ?_⟩
      · simp [hindex, hpayload]
      · rw [hsplit, List.length_append] at hthird
        omega
    · simp at hbody

end Lengths

/-! ## Runs -/

namespace StreamRun

variable {read : ℕ → Bytes → Option Bytes} {outputDir : RawPath}
  {s t : StreamRun}

/-- The bytes of a frame are read as `DirectLoop::receive` reads them. -/
theorem afterFrame_receive {loop : DirectLoop} (hpc : loop.pc = .head)
    {frame : FrameRead} {rest : Bytes}
    (hparts : readParts read loop.books.manifest loop.books.pending
      loop.books.bytesDone s.unread = some (.ok frame, rest)) :
    loop.receive read s.unread =
      some ((s.afterFrame read loop).receiver,
        (s.afterFrame read loop).unread) := by
  unfold DirectLoop.receive afterFrame
  rw [if_pos hpc, readFrame_eq]
  dsimp only
  rw [hparts]
  rfl

/-- A frame keeps the reader at the boundary exactly when it ends there. -/
theorem atBoundary_afterFrame_iff
    (hread : ∀ nonce ciphertext plaintext,
      read nonce ciphertext = some plaintext →
        plaintext.length + 16 = ciphertext.length)
    (hbefore : s.AtBoundary) (loop : DirectLoop) :
    (s.afterFrame read loop).AtBoundary ↔
      Delimited loop.books.manifest s.unread := by
  have hcomplete : ∀ header body total,
      readHeader s.unread = some (header, body) →
      header.payloadLen ≤ maxPayload loop.books.manifest →
      subLengths header.subCount body = some total →
      ∃ frame rest, readParts read loop.books.manifest loop.books.pending
        loop.books.bytesDone s.unread = some (.ok frame, rest) :=
    fun header body total hheader hallowed htotal =>
      readParts_of_subLengths _ _ hheader hallowed htotal
  unfold afterFrame
  dsimp only
  split
  next hparts =>
    refine iff_of_true ⟨hbefore.position, hbefore.buffered⟩ ?_
    intro header body total hheader hallowed htotal
    obtain ⟨frame, rest, hok⟩ := hcomplete header body total hheader hallowed
      htotal
    simp [hparts] at hok
  next error rest hparts =>
    refine iff_of_true ⟨hbefore.position, hbefore.buffered⟩ ?_
    intro header body total hheader hallowed htotal
    obtain ⟨frame, rest', hok⟩ := hcomplete header body total hheader hallowed
      htotal
    simp [hparts] at hok
  next frame rest hparts =>
    obtain ⟨header, body, total, hheader, hpayload, hallowed, htotal, hlength,
      hplain⟩ := readParts_lengths hread hparts
    have hposition := hbefore.position
    have hbuffered := bufferedSoFar_of_readParts hparts
    constructor
    · intro hafter header' body' total' hheader' _ htotal'
      rw [hheader] at hheader'
      cases hheader'
      rw [htotal] at htotal'
      cases htotal'
      have hend := hafter.position
      dsimp only at hend
      omega
    · intro hdelimited
      have hend := hdelimited header body total hheader (by omega) htotal
      constructor
      · dsimp only
        omega
      · dsimp only
        rw [hbuffered]
        omega

theorem atBoundary_next_iff
    (hread : ∀ nonce ciphertext plaintext,
      read nonce ciphertext = some plaintext →
        plaintext.length + 16 = ciphertext.length)
    (hbefore : s.AtBoundary) {event : StreamEvent}
    (hnext : s.next read outputDir event = some t) :
    t.AtBoundary ↔ s.Declares event := by
  cases event with
  | receiver event =>
      obtain ⟨⟨receiver, output⟩, _, rfl⟩ := Option.map_eq_some_iff.mp hnext
      exact iff_of_true ⟨hbefore.position, hbefore.buffered⟩ trivial
  | frame =>
      simp only [next] at hnext
      split at hnext
      next loop hstate =>
        split at hnext
        · cases hnext
          rw [atBoundary_afterFrame_iff hread hbefore]
          simp only [Declares, hstate]
        · contradiction
      next => contradiction

end StreamRun

/-- Each frame processed ends where its header says, with its plaintext within
the cap, exactly when the lengths inside the frames add up to those outside;
what is buffered of a frame not yet read stays within the cap while they do not
pass them.  The relay reader needs no such thing of its frames. -/
theorem frame_boundary_iff (read : ℕ → Bytes → Option Bytes)
    (hread : ∀ nonce ciphertext plaintext,
      read nonce ciphertext = some plaintext →
        plaintext.length + 16 = ciphertext.length)
    (outputDir : RawPath) :
    (∀ stream history s,
      (StreamRun.machine read outputDir stream).Execution history s →
        (Machine.Throughout StreamRun.AtBoundary history s ↔
          ∀ entry ∈ history, entry.1.Declares entry.2)) ∧
      (∀ manifest pending bytesDone input, WithinDeclared input →
        (bufferedSoFar read manifest pending bytesDone input).length ≤
          maxPayload manifest) ∧
      ∀ decode input index ciphertext rest,
        recvMsg read decode input = some (.ok (.chunk index ciphertext), rest) →
        ∃ type body payloadLen tail, readBe 1 input = some (type, body) ∧
          (readBe 4 body).bind (fun (_, fields) => readBe 4 fields) =
            some (payloadLen, tail) ∧
          ciphertext.length = payloadLen ∧
          input.length = 9 + payloadLen + rest.length := by
  refine ⟨?_, ?_, ?_⟩
  · intro stream history s hexec
    apply hexec.throughout_iff
    · rintro _ rfl
      exact ⟨rfl, le_rfl⟩
    · intro u event v _ hu hnext
      exact StreamRun.atBoundary_next_iff hread hu hnext
  · intro manifest pending bytesDone input hwithin
    exact length_bufferedSoFar_le hread manifest pending bytesDone hwithin
  · intro decode input index ciphertext rest hrecv
    exact recvMsg_chunk_length hrecv

theorem tagRead_length {nonce : ℕ} {ciphertext plaintext : Bytes}
    (hread : tagRead nonce ciphertext = some plaintext) :
    plaintext.length + 16 = ciphertext.length := by
  unfold tagRead at hread
  dsimp only at hread
  split at hread
  next htag =>
    cases hread
    have hlength := congrArg List.length htag
    simp only [List.length_drop, List.length_replicate] at hlength
    rw [List.length_take]
    omega
  next => contradiction

/-- A frame for the chunk of the sample file that declares only the two bytes of
its count. -/
def shortDeclaredFrame : Bytes :=
  toBe 4 0 ++ toBe 4 2 ++
    payload (subCiphertexts lookupNoise 0 [1, 2, 3])

def shortDeclaredRun : Option StreamRun :=
  (StreamRun.machine tagRead ['d'] shortDeclaredFrame).runFrom
    (StreamRun.initial shortDeclaredFrame)
    ([.receiver .proceed,
        .receiver (.received (.ok (.manifest (buildManifest sampleSource)))),
        .receiver (.lookup (fun _ => false) fun _ => .absent)] ++
      List.replicate 6 (.receiver .proceed) ++ [.frame])

theorem shortDeclaredRun_position :
    shortDeclaredRun.map (fun s => (s.position, s.boundary)) =
      some (33, 10) := by
  decide +kernel

theorem frame_boundary_sample :
    ∃ s history, shortDeclaredRun = some s ∧
      (StreamRun.machine tagRead ['d'] shortDeclaredFrame).Execution history s ∧
      (Machine.Throughout StreamRun.AtBoundary history s ↔
        ∀ entry ∈ history, entry.1.Declares entry.2) := by
  obtain ⟨s, hs, _⟩ := Option.map_eq_some_iff.mp shortDeclaredRun_position
  have hreach : (StreamRun.machine tagRead ['d'] shortDeclaredFrame).Reachable s :=
    Machine.Reachable.of_runFrom rfl hs
  obtain ⟨history, hexec⟩ := hreach.execution
  exact ⟨s, history, hs, hexec, (frame_boundary_iff tagRead
    (fun _ _ _ => tagRead_length) ['d']).1 _ history s hexec⟩

/-- The frame takes 25 bytes after its header instead of two. -/
theorem frame_past_its_boundary :
    ∃ s, (StreamRun.machine tagRead ['d'] shortDeclaredFrame).Reachable s ∧
      ¬ s.AtBoundary := by
  obtain ⟨s, hs, hfields⟩ := Option.map_eq_some_iff.mp shortDeclaredRun_position
  refine ⟨s, Machine.Reachable.of_runFrom rfl hs, fun hboundary => ?_⟩
  simp only [Prod.mk.injEq] at hfields
  have hposition := hboundary.position
  omega

end P2pShare
