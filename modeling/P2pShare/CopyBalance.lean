import P2pShare.Network
import P2pShare.ControlCodec

/-!
# One copy of each missing chunk

`Network.Sound` is the invariant of both kinds of transfer: the copies of a
chunk that the parties and the streams hold together are one if the receiver
misses the chunk, else none.  It rests on the laws of a kind, which say what a
step of a party moves.
-/

namespace P2pShare

open ByteStream PathResolution TransitionMachine

namespace Network

variable {Sender Loop : Type} (kind : NetworkKind Sender Loop)
  (setting : NetworkSetting)

/-! ## Copies and phases -/

def frames (s : Network Sender Loop) : List ℕ :=
  (s.streams .control ++ s.streams .data).flatMap Item.indices

/-- All copies of a chunk that the parties and the streams hold. -/
def allCopies (s : Network Sender Loop) : Copies :=
  ((kind.copies setting.manifest s.sender).append (frameCopies s.frames)).append
    ((messageCopies setting.manifest s.reports).append
      (s.receiver.copies setting.manifest kind.held))

end Network

namespace Receiver

variable {Loop : Type}

def outstanding (books : Loop → Books) (receiver : Receiver Loop) : Finset ℕ :=
  (receiver.pending? books).getD ∅

/-- How much the receiver has said: nothing yet, as it has not heard the
manifest; nothing yet, as it has not decided; its reply. -/
inductive Stage where
  | unheard
  | deciding
  | answered
  | over
  deriving DecidableEq

def stage : Receiver Loop → Stage
  | setup .acceptBi | setup .recvManifest => .unheard
  | setup (.lookup _) | setup (.createDir _) | setup (.create _)
  | setup (.setLen _) | setup (.reply _ _ _) => .deciding
  | setup (.openFile _ _) | setup (.ready _ _) | loop _ | returned _ =>
      .answered
  | setup .reject | setup (.failed _) | failed _ => .over

def Sound (kind : LoopKind Loop) (manifest : FileManifest) :
    Receiver Loop → Prop
  | setup .acceptBi | setup .recvManifest => True
  | setup (.lookup m) | setup (.createDir m) | setup (.create m)
  | setup (.setLen m) => m = manifest
  | setup (.reply m state message) =>
      m = manifest ∧ state.manifest = manifest ∧
        replySkip (.ok message) = .ok state.chunksDone
  | setup (.openFile m state) | setup (.ready m state) =>
      m = manifest ∧ state.manifest = manifest
  | loop l =>
      kind.Regular l ∧ (kind.books l).manifest = manifest ∧
        ∀ index ∈ (kind.books l).pending, index < manifest.chunkCount
  | returned b => ∀ index ∈ b.pending, index < manifest.chunkCount
  | setup .reject | setup (.failed _) | failed _ => False

theorem outstanding_lt {kind : LoopKind Loop} {manifest : FileManifest}
    {receiver : Receiver Loop} (hsound : receiver.Sound kind manifest)
    {index : ℕ} (hindex : index ∈ receiver.outstanding kind.books) :
    index < manifest.chunkCount := by
  unfold outstanding at hindex
  cases receiver with
  | setup s =>
      cases s with
      | reply m state message =>
          have hmissing : index ∈ state.missingChunks := by
            simpa [pending?] using hindex
          rw [TransferState.mem_missingChunks, hsound.2.1] at hmissing
          exact hmissing.1
      | openFile m state =>
          have hmissing : index ∈ state.missingChunks := by
            simpa [pending?] using hindex
          rw [TransferState.mem_missingChunks, hsound.2] at hmissing
          exact hmissing.1
      | ready m state =>
          have hmissing : index ∈ state.missingChunks := by
            simpa [pending?] using hindex
          rw [TransferState.mem_missingChunks, hsound.2] at hmissing
          exact hmissing.1
      | _ => simp [pending?] at hindex
  | loop l => exact hsound.2.2 index hindex
  | returned b => exact hsound index hindex
  | failed error => simp [pending?] at hindex

end Receiver

/-- A chunk frame that the receiver can read to its end. -/
def Item.Framed (manifest : FileManifest) : Item → Prop
  | ctrl _ => False
  | chunk frame => frame.WellFramed (maxPayload manifest)

namespace Network

variable {Sender Loop : Type} (kind : NetworkKind Sender Loop)
  (setting : NetworkSetting)

def Quiet (s : Network Sender Loop) : Prop :=
  ∀ stream, s.streams stream = []

/-- How far the conversation has come, and what is on its way. -/
inductive Phase (s : Network Sender Loop) : Prop
  | silent :
      s.sender = kind.sender.start → s.receiver.stage = .unheard → s.Quiet →
      s.reports = [] → Phase s
  | announced :
      s.sender = kind.awaiting → s.receiver.stage = .unheard →
      s.streams .control = [.ctrl (.manifest setting.manifest)] →
      s.streams .data = [] → s.reports = [] → Phase s
  | deciding :
      s.sender = kind.awaiting → s.receiver.stage = .deciding → s.Quiet →
      s.reports = [] → Phase s
  | answered (reply : ControlMessage) (rest : List ControlMessage) :
      s.sender = kind.awaiting → s.receiver.stage = .answered → s.Quiet →
      s.reports = reply :: rest → IsReply reply →
      (∀ message ∈ rest, IsReport message) → Phase s
  | running :
      kind.sender.replied s.sender → s.receiver.stage = .answered →
      (∀ stream, ∀ item ∈ s.streams stream, item.Framed setting.manifest) →
      (∀ message ∈ s.reports, IsReport message) → Phase s

structure Sound (s : Network Sender Loop) : Prop where
  orderly : kind.orderly s.sender
  sized : ∀ index plaintext, kind.sender.holds s.sender index plaintext →
    plaintext.length ≤ setting.manifest.chunkSize
  receiver : s.receiver.Sound kind.loop setting.manifest
  phase : Phase kind setting s
  balance : ∀ index, (s.allCopies kind setting).count index =
    if index ∈ s.receiver.outstanding kind.loop.books then 1 else 0
  undecided : s.receiver.pending? kind.loop.books = none → s.delivered = []
  delivered_nodup : s.delivered.Nodup
  delivered : ∀ index ∈ s.delivered,
    index ∉ s.receiver.outstanding kind.loop.books

end Network

/-! ## Laws of the two kinds -/

structure NetworkKind.Laws {Sender Loop : Type}
    (kind : NetworkKind Sender Loop) (setting : NetworkSetting) : Prop where
  sender : kind.sender.Laws setting.manifest
  loop : kind.loop.Laws
  firstSetup : kind.firstSetup = .acceptBi ∨ kind.firstSetup = .recvManifest
  start_orderly : kind.orderly kind.sender.start
  start_copies : ∀ index,
    (kind.copies setting.manifest kind.sender.start).count index = 0
  awaiting_orderly : kind.orderly kind.awaiting
  awaiting_copies : ∀ index,
    (kind.copies setting.manifest kind.awaiting).count index = 0
  awaiting_not_replied : ¬ kind.sender.replied kind.awaiting
  start_step : ∀ {event next output},
    event.regular setting.manifestSource.totalSize = true →
    kind.sender.step setting.manifest kind.sender.start event =
      some (next, output) →
    next = kind.awaiting ∧ output = .ctrl (.manifest setting.manifest)
  awaiting_step : ∀ {event},
    event.regular setting.manifestSource.totalSize = true →
    kind.sender.step setting.manifest kind.awaiting event = none
  replied_step : ∀ {sender event next output},
    kind.orderly sender → kind.sender.replied sender →
    event.regular setting.manifestSource.totalSize = true →
    (∀ index, 0 < (kind.copies setting.manifest sender).count index →
      index < setting.manifest.chunkCount) →
    kind.sender.step setting.manifest sender event =
      some (next, output) →
    kind.orderly next ∧ kind.sender.replied next ∧ ∀ index,
      (kind.copies setting.manifest next).count index +
          output.sentIndices.count index =
        (kind.copies setting.manifest sender).count index
  frame_holds : ∀ {sender event next index plaintext},
    event.regular setting.manifestSource.totalSize = true →
    kind.sender.step setting.manifest sender event =
      some (next, .frame index plaintext) →
    kind.sender.holds sender index plaintext
  received : ∀ {sender message next output},
    kind.orderly sender → (IsReply message ↔ ¬ kind.sender.replied sender) →
    (∀ code text, message ≠ .error code text) →
    kind.sender.step setting.manifest sender (.received (.ok message)) =
      some (next, output) →
    output = .none ∧ kind.orderly next ∧ kind.sender.replied next ∧
      ∀ index, (kind.copies setting.manifest next).count index =
        (kind.copies setting.manifest sender).count index +
          (messageCopies setting.manifest [message]).count index
  start_held : ∀ books index, (kind.held (kind.loop.start books)).count index = 0
  move : ∀ {loop receiver output},
    kind.loop.proceed loop = some (receiver, output) →
    ∃ pending', receiver.pending? kind.loop.books = some pending' ∧
      LoopMove (kind.held loop)
        (receiver.copies setting.manifest kind.held)
        (kind.loop.books loop).pending pending' (kind.delivers loop) output
        setting.manifest
  receive_frame : ∀ {read decode frame loop receiver},
    (kind.loop.books loop).manifest = setting.manifest →
    frame.WellFramed (maxPayload setting.manifest) →
    frame.index ∈ (kind.loop.books loop).pending →
    kind.loop.receive read decode (kind.wire frame) loop = some receiver →
    ∃ next, receiver = .loop next ∧
      (kind.loop.books next).pending = (kind.loop.books loop).pending ∧
      ∀ index, (kind.held next).count index =
        (kind.held loop).count index + [frame.index].count index

theorem readChunk_of_chunkCount {source : ManifestSource} {file : Bytes}
    {index : ℕ} (hfile : file.length = source.totalSize)
    (hindex : index < (buildManifest source).chunkCount) :
    ∃ plaintext, readChunk file (buildManifest source) index =
      some plaintext := by
  have hle := buildManifest_offset_add_sizeOf_le hindex
  rw [← hfile] at hle
  exact ⟨_, readChunk_of_le hle⟩

namespace DirectSender

variable {source : ManifestSource} {sender next : DirectSender}
  {event : SenderEvent} {output : SenderOutput}

theorem start_step (hregular : event.regular source.totalSize = true)
    (hstep : openBi.step (buildManifest source) event = some (next, output)) :
    next = .awaitReply ∧ output = .ctrl (.manifest (buildManifest source)) := by
  cases event with
  | proceed =>
      cases hstep
      exact ⟨rfl, rfl⟩
  | received result => contradiction
  | read file => contradiction
  | ctrlProceed => contradiction
  | ctrlRead file => contradiction
  | fail error effect => contradiction

theorem awaiting_step (hregular : event.regular source.totalSize = true) :
    awaitReply.step (buildManifest source) event = none := by
  cases event with
  | received result => contradiction
  | fail error effect => contradiction
  | _ => rfl

theorem replied_step (horderly : sender.Orderly) (hreplied : sender.Replied)
    (hregular : event.regular source.totalSize = true)
    (hcopies : ∀ index,
      0 < (sender.copies (buildManifest source)).count index →
        index < (buildManifest source).chunkCount)
    (hstep : sender.step (buildManifest source) event = some (next, output)) :
    next.Orderly ∧ next.Replied ∧ ∀ index,
      (next.copies (buildManifest source)).count index +
          output.sentIndices.count index =
        (sender.copies (buildManifest source)).count index := by
  cases event with
  | proceed =>
      rcases copies_proceed horderly hstep with ⟨hnext, hkeeps, hcount⟩
      exact ⟨hnext, hkeeps hreplied, hcount⟩
  | read file =>
      have hsize : file.length = source.totalSize := by
        simpa [SenderEvent.regular] using hregular
      have hfile : ∀ index,
          0 < (sender.copies (buildManifest source)).count index →
          ∃ plaintext, readChunk file (buildManifest source) index =
            some plaintext :=
        fun index hindex => readChunk_of_chunkCount hsize (hcopies index hindex)
      rcases copies_read horderly hfile hstep with
        ⟨hnext, hkeeps, hsent, hcount⟩
      refine ⟨hnext, hkeeps, fun index => ?_⟩
      rw [hsent, hcount]
      rfl
  | ctrlProceed => contradiction
  | ctrlRead file => contradiction
  | received result => contradiction
  | fail error effect => contradiction

end DirectSender

theorem directNetwork_laws (setting : NetworkSetting) :
    directNetwork.Laws setting where
  sender := directSenderKind_laws _
  loop := directLoopKind_laws
  firstSetup := Or.inl rfl
  start_orderly := trivial
  start_copies := fun _ => rfl
  awaiting_orderly := trivial
  awaiting_copies := fun _ => rfl
  awaiting_not_replied := id
  start_step := DirectSender.start_step
  awaiting_step := DirectSender.awaiting_step
  replied_step := DirectSender.replied_step
  frame_holds := DirectSender.frame_holds
  received := by
    intro sender message next output horderly hexpected herror hstep
    rcases Option.map_eq_some_iff.mp hstep with ⟨next', hreceived, hresult⟩
    cases hresult
    have hmoves :=
      DirectSender.copies_received horderly hexpected herror hreceived
    exact ⟨rfl, hmoves⟩
  start_held := by
    intro books index
    have hheld : (DirectLoop.start books).held = .none :=
      DirectLoop.held_toHead _
    simp only [directNetwork, directLoopKind, directKind, hheld,
      Copies.count_none]
  move := DirectLoop.move _
  receive_frame := by
    intro read decode frame loop receiver hmanifest hframed hpending hreceive
    rcases Option.map_eq_some_iff.mp hreceive with
      ⟨⟨receiver', rest⟩, hloop, hresult⟩
    cases hresult
    rw [← hmanifest] at hframed
    exact DirectLoop.held_receive hframed hpending hloop

namespace RelaySender

variable {source : ManifestSource} {sender next : RelaySender}
  {event : SenderEvent} {output : SenderOutput}

theorem start_step (hregular : event.regular source.totalSize = true)
    (hstep : greet.step (buildManifest source) event = some (next, output)) :
    next = .awaitReply ∧ output = .ctrl (.manifest (buildManifest source)) := by
  cases event with
  | proceed =>
      cases hstep
      exact ⟨rfl, rfl⟩
  | received result => contradiction
  | read file => contradiction
  | ctrlProceed => contradiction
  | ctrlRead file => contradiction
  | fail error effect => contradiction

theorem awaiting_step (hregular : event.regular source.totalSize = true) :
    awaitReply.step (buildManifest source) event = none := by
  cases event with
  | received result => contradiction
  | fail error effect => contradiction
  | _ => rfl

theorem replied_step (horderly : sender.Orderly) (hreplied : sender.Replied)
    (hregular : event.regular source.totalSize = true)
    (hcopies : ∀ index, 0 < sender.copies.count index →
      index < (buildManifest source).chunkCount)
    (hstep : sender.step (buildManifest source) event = some (next, output)) :
    next.Orderly ∧ next.Replied ∧ ∀ index,
      next.copies.count index + output.sentIndices.count index =
        sender.copies.count index := by
  have hread : ∀ file, event = .read file ∨ event = .ctrlRead file →
      file.length = source.totalSize →
      next.Orderly ∧ next.Replied ∧ ∀ index,
        next.copies.count index + output.sentIndices.count index =
          sender.copies.count index := by
    intro file hevent hsize
    have hfile : ∀ index, 0 < sender.copies.count index →
        ∃ plaintext, readChunk file (buildManifest source) index =
          some plaintext :=
      fun index hindex => readChunk_of_chunkCount hsize (hcopies index hindex)
    rcases copies_read hevent horderly hfile hstep with
      ⟨hnext, hkeeps, hsent, hcount⟩
    refine ⟨hnext, hkeeps, fun index => ?_⟩
    rw [hsent, hcount]
    rfl
  cases event with
  | proceed =>
      have hproceed : sender.proceed (buildManifest source) =
          some (next, output) := hstep
      rcases copies_proceed rfl horderly hproceed with
        ⟨hnext, hkeeps, hcount⟩
      exact ⟨hnext, hkeeps hreplied, hcount⟩
  | ctrlProceed => exact copies_ctrlProceed horderly hstep
  | read file =>
      exact hread file (Or.inl rfl) (by simpa [SenderEvent.regular] using hregular)
  | ctrlRead file =>
      exact hread file (Or.inr rfl) (by simpa [SenderEvent.regular] using hregular)
  | received result => contradiction
  | fail error effect => contradiction

end RelaySender

theorem relayNetwork_laws (setting : NetworkSetting) :
    relayNetwork.Laws setting where
  sender := relaySenderKind_laws _
  loop := relayLoopKind_laws
  firstSetup := Or.inr rfl
  start_orderly := trivial
  start_copies := fun _ => rfl
  awaiting_orderly := trivial
  awaiting_copies := fun _ => rfl
  awaiting_not_replied := id
  start_step := RelaySender.start_step
  awaiting_step := RelaySender.awaiting_step
  replied_step := RelaySender.replied_step
  frame_holds := RelaySender.frame_holds
  received := by
    intro sender message next output horderly hexpected herror hstep
    rcases Option.map_eq_some_iff.mp hstep with ⟨next', hreceived, hresult⟩
    cases hresult
    have hmoves := RelaySender.copies_received hexpected herror hreceived
    exact ⟨rfl, hmoves⟩
  start_held := by
    intro books index
    have hheld : (RelayLoop.start books).held = .none :=
      RelayLoop.held_toHead _
    simp only [relayNetwork, relayLoopKind, relayKind, hheld,
      Copies.count_none]
  move := RelayLoop.move _
  receive_frame := by
    intro read decode frame loop receiver _ hframed _ hreceive
    rcases Option.map_eq_some_iff.mp hreceive with
      ⟨⟨receiver', rest⟩, hloop, hresult⟩
    cases hresult
    exact RelayLoop.held_receive hframed hloop

/-! ## Items on the streams -/

theorem count_frames_update (streams : Stream → List Item) (stream : Stream)
    (items : List Item) (index : ℕ) :
    ((Function.update streams stream items .control ++
          Function.update streams stream items .data).flatMap
        Item.indices).count index +
        ((streams stream).flatMap Item.indices).count index =
      ((streams .control ++ streams .data).flatMap Item.indices).count index +
        (items.flatMap Item.indices).count index := by
  simp only [List.flatMap_append, List.count_append]
  cases stream with
  | control =>
      rw [Function.update_self, Function.update_of_ne (by simp)]
      omega
  | data =>
      rw [Function.update_self, Function.update_of_ne (by simp)]
      omega

/-- Framing is a matter of lengths alone. -/
theorem Frame.WellFramed.of_lengths {frame : Frame} {subs : List Bytes}
    {bound : ℕ} (hframed : frame.WellFramed bound)
    (hlengths : subs.map List.length = frame.subs.map List.length) :
    (Frame.mk frame.index subs).WellFramed bound := by
  have hcount : subs.length = frame.subs.length := by
    simpa using congrArg List.length hlengths
  have hsubs : (subs.map fun sub => 4 + sub.length) =
      frame.subs.map fun sub => 4 + sub.length := by
    have hmap := congrArg (List.map (4 + ·)) hlengths
    simpa only [List.map_map, Function.comp_def] using hmap
  have hpayload : (payload subs).length = (payload frame.subs).length := by
    rw [length_payload, length_payload, hsubs]
  constructor
  · exact hframed.index_lt
  · rw [hcount]
    exact hframed.count_lt
  · intro sub hsub
    have hlength : sub.length ∈ frame.subs.map List.length := by
      rw [← hlengths]
      exact List.mem_map_of_mem hsub
    rcases List.mem_map.mp hlength with ⟨sub', hsub', heq⟩
    rw [← heq]
    exact hframed.sub_le sub' hsub'
  · rw [hpayload]
    exact hframed.payload_le
  · rw [hpayload]
    exact hframed.payload_lt

theorem Item.overwrite_eq_some {item next : Item} {subs : List Bytes}
    (hoverwrite : item.overwrite subs = some next) :
    (∃ frame, item = chunk frame) ∧ next.indices = item.indices ∧
      ∀ manifest, item.Framed manifest → next.Framed manifest := by
  cases item with
  | ctrl message => contradiction
  | chunk frame =>
      by_cases hlengths :
          subs.map List.length = frame.subs.map List.length
      · simp only [overwrite, if_pos hlengths, Option.some.injEq]
          at hoverwrite
        subst next
        exact ⟨⟨frame, rfl⟩, rfl, fun manifest hframed =>
          hframed.of_lengths hlengths⟩
      · simp [overwrite, hlengths] at hoverwrite

namespace Network

variable {Sender Loop : Type} {kind : NetworkKind Sender Loop}
  {setting : NetworkSetting} {s t : Network Sender Loop}

theorem count_allCopies (s : Network Sender Loop) (index : ℕ) :
    (s.allCopies kind setting).count index =
      (kind.copies setting.manifest s.sender).count index +
        s.frames.count index +
        (messageCopies setting.manifest s.reports).count index +
        (s.receiver.copies setting.manifest kind.held).count index := by
  simp only [allCopies, Copies.count_append, count_frameCopies]
  omega

theorem frames_of_quiet (hquiet : s.Quiet) : s.frames = [] := by
  unfold frames
  rw [hquiet .control, hquiet .data]
  rfl

/-- A chunk of which a copy is about is outstanding, and there is one copy. -/
theorem Sound.mem_outstanding (hsound : Sound kind setting s) {index : ℕ}
    (hcopy : 0 < (s.allCopies kind setting).count index) :
    index ∈ s.receiver.outstanding kind.loop.books := by
  rw [hsound.balance index] at hcopy
  by_contra hnot
  rw [if_neg hnot] at hcopy
  contradiction

theorem Sound.index_lt (hsound : Sound kind setting s) {index : ℕ}
    (hcopy : 0 < (s.allCopies kind setting).count index) :
    index < setting.manifest.chunkCount :=
  Receiver.outstanding_lt hsound.receiver (hsound.mem_outstanding hcopy)

theorem sound_of_starts (hlaws : kind.Laws setting)
    (hstart : Starts kind s) : Sound kind setting s := by
  have hunheard : s.receiver.stage = .unheard ∧
      s.receiver.Sound kind.loop setting.manifest ∧
      s.receiver.pending? kind.loop.books = none ∧
      s.receiver.copies setting.manifest kind.held = .none := by
    rw [hstart.receiver]
    rcases hlaws.firstSetup with hfirst | hfirst
    · rw [hfirst]
      exact ⟨rfl, trivial, rfl, rfl⟩
    · rw [hfirst]
      exact ⟨rfl, trivial, rfl, rfl⟩
  rcases hunheard with ⟨hunheard, hreceiver, hpending, hcopies⟩
  have hquiet : s.Quiet := hstart.streams
  constructor
  · rw [hstart.sender]
    exact hlaws.start_orderly
  · intro index plaintext hholds
    rw [hstart.sender] at hholds
    exact absurd hholds (hlaws.sender.start_holds index plaintext)
  · exact hreceiver
  · exact Phase.silent hstart.sender hunheard hquiet hstart.reports
  · intro index
    have hzero := hlaws.start_copies index
    rw [← hstart.sender] at hzero
    rw [count_allCopies, hzero, frames_of_quiet hquiet, hstart.reports, hcopies]
    simp [Receiver.outstanding, hpending]
  · exact fun _ => hstart.delivered
  · rw [hstart.delivered]
    exact List.nodup_nil
  · simp [hstart.delivered]

/-! ## Steps of the sender -/

theorem chunkSize_of_available (hlaws : kind.Laws setting)
    (hsound : Sound kind setting s) {event : SenderEvent} {next : Sender}
    {output : SenderOutput}
    (hstep : kind.sender.step setting.manifest s.sender event =
      some (next, output)) :
    ∀ index plaintext, kind.sender.holds next index plaintext →
      plaintext.length ≤ setting.manifest.chunkSize := by
  intro index plaintext hholds
  have hfacts := hlaws.sender.stepFacts_of_step hstep
  rcases hfacts.holds index plaintext hholds with hheld | ⟨file, _, hread⟩
  · exact hsound.sized index plaintext hheld
  · rw [(readChunk_eq_some hread).1]
    exact FileManifest.sizeOf_le_chunkSize index

@[simp] theorem emit_sender (s : Network Sender Loop) (output : SenderOutput) :
    (s.emit kind setting output).sender = s.sender := by
  cases output <;> rfl

@[simp] theorem emit_receiver (s : Network Sender Loop)
    (output : SenderOutput) :
    (s.emit kind setting output).receiver = s.receiver := by
  cases output <;> rfl

@[simp] theorem emit_reports (s : Network Sender Loop)
    (output : SenderOutput) :
    (s.emit kind setting output).reports = s.reports := by
  cases output <;> rfl

@[simp] theorem emit_delivered (s : Network Sender Loop)
    (output : SenderOutput) :
    (s.emit kind setting output).delivered = s.delivered := by
  cases output <;> rfl

theorem count_frames_emit (s : Network Sender Loop) (output : SenderOutput)
    (index : ℕ) :
    (s.emit kind setting output).frames.count index =
      s.frames.count index + output.sentIndices.count index := by
  cases output with
  | ctrl message =>
      have hupdate := count_frames_update s.streams .control
        (s.streams .control ++ [.ctrl message]) index
      simp only [List.flatMap_append, List.count_append, Item.indices,
        List.flatMap_cons, List.flatMap_nil, List.append_nil] at hupdate
      simp only [emit, push, frames, List.flatMap_append, List.count_append,
        SenderOutput.sentIndices, List.count_nil]
      omega
  | frame sent plaintext =>
      have hupdate := count_frames_update s.streams kind.dataStream
        (s.streams kind.dataStream ++
          [.chunk (chunkFrame setting.noise sent plaintext)]) index
      simp only [List.flatMap_append, List.count_append, Item.indices,
        List.flatMap_cons, List.flatMap_nil, List.append_nil,
        chunkFrame] at hupdate
      simp only [emit, push, frames, List.flatMap_append, List.count_append,
        SenderOutput.sentIndices, chunkFrame]
      omega
  | none => rfl
  | sealChunk sent plaintext => rfl
  | finish => rfl

/-- The part of the invariant that a step of the sender may break. -/
theorem Sound.sender_moves (hsound : Sound kind setting s)
    (horderly : kind.orderly t.sender)
    (hsized : ∀ index plaintext, kind.sender.holds t.sender index plaintext →
      plaintext.length ≤ setting.manifest.chunkSize)
    (hreceiver : t.receiver = s.receiver) (hdelivered : t.delivered = s.delivered)
    (hphase : Phase kind setting t)
    (hcount : ∀ index, (t.allCopies kind setting).count index =
      (s.allCopies kind setting).count index) :
    Sound kind setting t where
  orderly := horderly
  sized := hsized
  receiver := by
    rw [hreceiver]
    exact hsound.receiver
  phase := hphase
  balance := by
    intro index
    rw [hcount, hreceiver]
    exact hsound.balance index
  undecided := by
    rw [hreceiver, hdelivered]
    exact hsound.undecided
  delivered_nodup := by
    rw [hdelivered]
    exact hsound.delivered_nodup
  delivered := by
    rw [hreceiver, hdelivered]
    exact hsound.delivered

theorem framed_emit (hlaws : kind.Laws setting)
    (hsound : Sound kind setting s) {event : SenderEvent} {next : Sender}
    {output : SenderOutput}
    (hregular : event.regular setting.manifestSource.totalSize = true)
    (hstep : kind.sender.step setting.manifest s.sender event =
      some (next, output))
    (hctrl : ∀ message, output ≠ .ctrl message)
    (hindex : ∀ index ∈ output.sentIndices,
      index < setting.manifest.chunkCount)
    (hframed : ∀ stream, ∀ item ∈ s.streams stream,
      item.Framed setting.manifest) :
    ∀ stream,
      ∀ item ∈ ({ s with sender := next }.emit kind setting output).streams
        stream, item.Framed setting.manifest := by
  cases output with
  | ctrl message => exact absurd rfl (hctrl message)
  | frame index plaintext =>
      intro stream item hitem
      have hlength : plaintext.length ≤ setting.manifest.chunkSize :=
        hsound.sized index plaintext (hlaws.frame_holds hregular hstep)
      have hlt : index < setting.manifest.chunkCount :=
        hindex index List.mem_cons_self
      have hnew : (Item.chunk (chunkFrame setting.noise index plaintext)).Framed
          setting.manifest :=
        chunkFrame_wellFramed setting.noise setting.manifestSource
          (hlt.trans setting.manifest.chunkCount_lt) hlength
      by_cases hstream : stream = kind.dataStream
      · subst hstream
        simp only [emit, push, Function.update_self, List.mem_append,
          List.mem_singleton] at hitem
        rcases hitem with hitem | rfl
        · exact hframed _ item hitem
        · exact hnew
      · simp only [emit, push, Function.update_of_ne hstream] at hitem
        exact hframed stream item hitem
  | none => exact hframed
  | sealChunk index plaintext => exact hframed
  | finish => exact hframed

theorem sound_sender (hlaws : kind.Laws setting)
    (hsound : Sound kind setting s) {event : SenderEvent} {next : Sender}
    {output : SenderOutput}
    (hregular : event.regular setting.manifestSource.totalSize = true)
    (hstep : kind.sender.step setting.manifest s.sender event =
      some (next, output)) :
    Sound kind setting ({ s with sender := next }.emit kind setting output) := by
  have hsized := chunkSize_of_available hlaws hsound hstep
  have hawaiting : s.sender ≠ kind.awaiting := by
    intro hsender
    rw [hsender] at hstep
    rw [hlaws.awaiting_step hregular] at hstep
    contradiction
  cases hsound.phase with
  | silent hsender hunheard hquiet hreports =>
      rw [hsender] at hstep
      rcases hlaws.start_step hregular hstep with ⟨rfl, rfl⟩
      apply hsound.sender_moves
      · exact hlaws.awaiting_orderly
      · exact hsized
      · rfl
      · rfl
      · apply Phase.announced
        · rfl
        · exact hunheard
        · simp only [emit, push, Function.update_self, hquiet .control,
            List.nil_append]
        · exact hquiet .data
        · exact hreports
      · intro index
        have hbefore := hlaws.start_copies index
        have hafter := hlaws.awaiting_copies index
        simp only [count_allCopies, count_frames_emit, emit_sender,
          emit_receiver, emit_reports, hsender, hbefore, hafter]
        rfl
  | announced hsender _ _ _ _ => exact absurd hsender hawaiting
  | deciding hsender _ _ _ => exact absurd hsender hawaiting
  | answered reply rest hsender _ _ _ _ _ => exact absurd hsender hawaiting
  | running hreplied hanswered hframed hreports =>
      have hcopies : ∀ index,
          0 < (kind.copies setting.manifest s.sender).count index →
          index < setting.manifest.chunkCount := by
        intro index hindex
        apply hsound.index_lt
        rw [count_allCopies]
        omega
      rcases hlaws.replied_step hsound.orderly hreplied hregular hcopies hstep
        with ⟨horderly, hkeeps, hcount⟩
      have hctrl : ∀ message, output ≠ .ctrl message := by
        intro message houtput
        have hfacts := hlaws.sender.stepFacts_of_step hstep
        have hstart := (hfacts.ctrl message houtput).1
        rw [hstart] at hreplied
        exact hlaws.sender.start_not_replied hreplied
      have hindex : ∀ index ∈ output.sentIndices,
          index < setting.manifest.chunkCount := by
        intro index hsent
        have hpos := List.count_pos_iff.mpr hsent
        apply hcopies
        have hbalance := hcount index
        omega
      apply hsound.sender_moves
      · simpa using horderly
      · simpa using hsized
      · simp
      · simp
      · apply Phase.running
        · simpa using hkeeps
        · simpa using hanswered
        · exact framed_emit hlaws hsound hregular hstep hctrl hindex hframed
        · simpa using hreports
      · intro index
        have hbalance := hcount index
        simp only [count_allCopies, count_frames_emit, emit_sender,
          emit_receiver, emit_reports]
        have hframes : ({ s with sender := next } : Network Sender Loop).frames =
            s.frames := rfl
        rw [hframes]
        omega

theorem sound_senderHears (hlaws : kind.Laws setting)
    (hsound : Sound kind setting s) {message : ControlMessage}
    {reports : List ControlMessage} {next : Sender} {output : SenderOutput}
    (hreports : s.reports = message :: reports)
    (hstep : kind.sender.step setting.manifest s.sender
      (.received (.ok message)) = some (next, output)) :
    Sound kind setting
      ({ s with sender := next, reports }.emit kind setting output) := by
  have hsized := chunkSize_of_available hlaws hsound hstep
  have hnonempty : s.reports ≠ [] := by
    rw [hreports]
    exact List.cons_ne_nil _ _
  have hmove : (IsReply message ↔ ¬ kind.sender.replied s.sender) →
      (∀ code text, message ≠ .error code text) →
      s.receiver.stage = .answered →
      (∀ stream, ∀ item ∈ s.streams stream, item.Framed setting.manifest) →
      (∀ message ∈ reports, IsReport message) →
      Sound kind setting
        ({ s with sender := next, reports }.emit kind setting output) := by
    intro hexpected herror hanswered hframed hrest
    rcases hlaws.received hsound.orderly hexpected herror hstep with
      ⟨rfl, horderly, hreplied, hcount⟩
    apply hsound.sender_moves
    · exact horderly
    · exact hsized
    · rfl
    · rfl
    · exact Phase.running hreplied hanswered hframed hrest
    · intro index
      have hbalance := hcount index
      have hsplit := @count_messageCopies_cons setting.manifest message
        reports index
      simp only [count_allCopies, hreports, emit]
      have hframes : ({ s with sender := next, reports } :
          Network Sender Loop).frames = s.frames := rfl
      rw [hframes]
      omega
  cases hsound.phase with
  | silent _ _ _ hempty => exact absurd hempty hnonempty
  | announced _ _ _ _ hempty => exact absurd hempty hnonempty
  | deciding _ _ _ hempty => exact absurd hempty hnonempty
  | answered reply rest hsender hanswered hquiet hqueue hreply hrest =>
      rw [hreports, List.cons.injEq] at hqueue
      rcases hqueue with ⟨rfl, rfl⟩
      have hnot : ¬ kind.sender.replied s.sender := by
        rw [hsender]
        exact hlaws.awaiting_not_replied
      apply hmove
      · exact iff_of_true hreply hnot
      · rintro code text rfl
        rcases hreply with ⟨skip, hskip⟩
        contradiction
      · exact hanswered
      · intro stream item hitem
        rw [hquiet stream] at hitem
        contradiction
      · exact hrest
  | running hreplied hanswered hframed hrest =>
      rw [hreports] at hrest
      have hreport := hrest message List.mem_cons_self
      apply hmove
      · exact iff_of_false hreport.not_isReply (not_not_intro hreplied)
      · exact hreport.ne_error
      · exact hanswered
      · exact hframed
      · exact fun other hother => hrest other (List.mem_cons_of_mem _ hother)

/-! ## Steps of the receiver -/

/-- A step of the receiver that hands no chunk to the disk: the copies it holds
change by what it sends and by what it now misses. -/
theorem Sound.setup_moves (hsound : Sound kind setting s)
    (hsender : t.sender = s.sender) (hdelivered : t.delivered = s.delivered)
    (hreceiver : t.receiver.Sound kind.loop setting.manifest)
    (hphase : Phase kind setting t)
    (hpending : s.receiver.pending? kind.loop.books = none ∨
      t.receiver.pending? kind.loop.books =
        s.receiver.pending? kind.loop.books)
    (hcount : ∀ index,
      (t.allCopies kind setting).count index +
          (if index ∈ s.receiver.outstanding kind.loop.books then 1 else 0) =
        (s.allCopies kind setting).count index +
          if index ∈ t.receiver.outstanding kind.loop.books then 1 else 0) :
    Sound kind setting t where
  orderly := by
    rw [hsender]
    exact hsound.orderly
  sized := by
    rw [hsender]
    exact hsound.sized
  receiver := hreceiver
  phase := hphase
  balance := by
    intro index
    have hbalance := hsound.balance index
    have hmove := hcount index
    omega
  undecided := by
    intro hnone
    rw [hdelivered]
    rcases hpending with hbefore | hsame
    · exact hsound.undecided hbefore
    · rw [hsame] at hnone
      exact hsound.undecided hnone
  delivered_nodup := by
    rw [hdelivered]
    exact hsound.delivered_nodup
  delivered := by
    intro index hindex
    rw [hdelivered] at hindex
    rcases hpending with hbefore | hsame
    · rw [hsound.undecided hbefore] at hindex
      contradiction
    · have hnot := hsound.delivered index hindex
      unfold Receiver.outstanding at hnot ⊢
      rw [hsame]
      exact hnot

/-- What the receiver has been told, from how far it is. -/
theorem Sound.phase_of_unheard (hsound : Sound kind setting s)
    (hunheard : s.receiver.stage = .unheard) :
    (s.sender = kind.sender.start ∧ s.Quiet ∨
      s.sender = kind.awaiting ∧
        s.streams .control = [.ctrl (.manifest setting.manifest)] ∧
        s.streams .data = []) ∧ s.reports = [] := by
  cases hsound.phase with
  | silent hsender _ hquiet hreports =>
      exact ⟨Or.inl ⟨hsender, hquiet⟩, hreports⟩
  | announced hsender _ hcontrol hdata hreports =>
      exact ⟨Or.inr ⟨hsender, hcontrol, hdata⟩, hreports⟩
  | deciding _ hstage _ _ =>
      rw [hunheard] at hstage
      contradiction
  | answered _ _ _ hstage _ _ _ _ =>
      rw [hunheard] at hstage
      contradiction
  | running _ hstage _ _ =>
      rw [hunheard] at hstage
      contradiction

theorem Sound.phase_of_deciding (hsound : Sound kind setting s)
    (hdeciding : s.receiver.stage = .deciding) :
    s.sender = kind.awaiting ∧ s.Quiet ∧ s.reports = [] := by
  cases hsound.phase with
  | silent _ hstage _ _ =>
      rw [hdeciding] at hstage
      contradiction
  | announced _ hstage _ _ _ =>
      rw [hdeciding] at hstage
      contradiction
  | deciding hsender _ hquiet hreports => exact ⟨hsender, hquiet, hreports⟩
  | answered _ _ _ hstage _ _ _ _ =>
      rw [hdeciding] at hstage
      contradiction
  | running _ hstage _ _ =>
      rw [hdeciding] at hstage
      contradiction

/-- Once it has replied, the receiver may move on and report. -/
theorem Sound.phase_of_answered (hsound : Sound kind setting s)
    (hanswered : s.receiver.stage = .answered)
    (hsender : t.sender = s.sender) (hstreams : t.streams = s.streams)
    (hstage : t.receiver.stage = .answered)
    (hreports : ∃ messages, t.reports = s.reports ++ messages ∧
      ∀ message ∈ messages, IsReport message) :
    Phase kind setting t := by
  rcases hreports with ⟨messages, hreports, hmessages⟩
  cases hsound.phase with
  | silent _ hbefore _ _ =>
      rw [hanswered] at hbefore
      contradiction
  | announced _ hbefore _ _ _ =>
      rw [hanswered] at hbefore
      contradiction
  | deciding _ hbefore _ _ =>
      rw [hanswered] at hbefore
      contradiction
  | answered reply rest hawaiting _ hquiet hqueue hreply hrest =>
      apply Phase.answered reply (rest ++ messages)
      · rw [hsender, hawaiting]
      · exact hstage
      · intro stream
        rw [hstreams]
        exact hquiet stream
      · rw [hreports, hqueue, List.cons_append]
      · exact hreply
      · intro message hmessage
        rcases List.mem_append.mp hmessage with hold | hnew
        · exact hrest message hold
        · exact hmessages message hnew
  | running hreplied _ hframed hrest =>
      apply Phase.running
      · rw [hsender]
        exact hreplied
      · exact hstage
      · rw [hstreams]
        exact hframed
      · intro message hmessage
        rw [hreports] at hmessage
        rcases List.mem_append.mp hmessage with hold | hnew
        · exact hrest message hold
        · exact hmessages message hnew

/-- A step of the setup, before or after the reply, that only moves on. -/
theorem Sound.moves_on (hsound : Sound kind setting s)
    {receiver : Receiver Loop}
    (hreceiver : receiver.Sound kind.loop setting.manifest)
    (hstage : receiver.stage = s.receiver.stage)
    (hcopies : ∀ index,
      (receiver.copies setting.manifest kind.held).count index +
          (if index ∈ s.receiver.outstanding kind.loop.books then 1 else 0) =
        (s.receiver.copies setting.manifest kind.held).count index +
          if index ∈ receiver.outstanding kind.loop.books then 1 else 0)
    (hpending : s.receiver.pending? kind.loop.books = none ∨
      receiver.pending? kind.loop.books =
        s.receiver.pending? kind.loop.books) :
    Sound kind setting { s with receiver } := by
  apply hsound.setup_moves
  · rfl
  · rfl
  · exact hreceiver
  · cases hsound.phase with
    | silent hsender hbefore hquiet hreports =>
        exact Phase.silent hsender (hstage.trans hbefore) hquiet hreports
    | announced hsender hbefore hcontrol hdata hreports =>
        exact Phase.announced hsender (hstage.trans hbefore) hcontrol hdata
          hreports
    | deciding hsender hbefore hquiet hreports =>
        exact Phase.deciding hsender (hstage.trans hbefore) hquiet hreports
    | answered reply rest hsender hbefore hquiet hreports hreply hrest =>
        exact Phase.answered reply rest hsender (hstage.trans hbefore) hquiet
          hreports hreply hrest
    | running hreplied hbefore hframed hreports =>
        exact Phase.running hreplied (hstage.trans hbefore) hframed hreports
  · exact hpending
  · intro index
    have hmove := hcopies index
    have hframes : ({ s with receiver } : Network Sender Loop).frames =
        s.frames := rfl
    simp only [count_allCopies, hframes]
    omega

/-- The reply promises what the receiver misses. -/
theorem count_reply {state : TransferState} {message : ControlMessage}
    (hstate : state.manifest = setting.manifest)
    (hreply : replySkip (.ok message) = .ok state.chunksDone) (index : ℕ) :
    (messageCopies setting.manifest [message]).count index =
      if index ∈ state.missingChunks.toFinset then 1 else 0 := by
  rw [count_messageCopies_reply hreply, count_toSend]
  simp [hstate]

theorem receiverMoves_setup {setup : Setup} {receiver : Receiver Loop}
    {output : ReceiverOutput} (hsetup : s.receiver = .setup setup)
    (houtput : output.messages = []) :
    s.receiverMoves kind receiver output = { s with receiver } := by
  simp [receiverMoves, deliversNext, hsetup, houtput]

theorem sound_setup (hlaws : kind.Laws setting)
    (hsound : Sound kind setting s) {setup : Setup}
    {receiver : Receiver Loop} {output : ReceiverOutput}
    (hsetup : s.receiver = .setup setup)
    (hproceed : s.receiver.proceed kind.loop.toReceiveLoop setting.outputDir =
      some (receiver, output)) :
    Sound kind setting (s.receiverMoves kind receiver output) := by
  have hreceiver := hsound.receiver
  rw [hsetup] at hreceiver hproceed
  cases setup with
  | acceptBi =>
      cases hproceed
      rw [receiverMoves_setup hsetup rfl]
      apply hsound.moves_on
      · trivial
      · rw [hsetup]
        rfl
      · rw [hsetup]
        exact fun index => rfl
      · rw [hsetup]
        exact Or.inl rfl
  | recvManifest => contradiction
  | reject => exact hreceiver.elim
  | lookup m => contradiction
  | createDir m =>
      cases hproceed
      rw [receiverMoves_setup hsetup rfl]
      apply hsound.moves_on
      · exact hreceiver
      · rw [hsetup]
        rfl
      · rw [hsetup]
        exact fun index => rfl
      · rw [hsetup]
        exact Or.inl rfl
  | create m =>
      cases hproceed
      rw [receiverMoves_setup hsetup rfl]
      apply hsound.moves_on
      · exact hreceiver
      · rw [hsetup]
        rfl
      · rw [hsetup]
        exact fun index => rfl
      · rw [hsetup]
        exact Or.inl rfl
  | setLen m =>
      have hm : m = setting.manifest := hreceiver
      subst m
      cases hproceed
      rw [receiverMoves_setup hsetup rfl]
      apply hsound.moves_on
      · exact ⟨rfl, rfl, rfl⟩
      · rw [hsetup]
        rfl
      · intro index
        rw [hsetup]
        have hreply : (messageCopies setting.manifest [.manifestAck]).count
            index =
              if index ∈ (TransferState.new setting.manifest
                (outputPathFor setting.outputDir
                  setting.manifest)).missingChunks.toFinset then 1 else 0 :=
          count_reply rfl rfl index
        simp only [Receiver.ofSetup, Receiver.copies, hreply,
          Receiver.outstanding, Receiver.pending?]
        simp
      · rw [hsetup]
        exact Or.inl rfl
  | reply m state message =>
      rcases hreceiver with ⟨rfl, hstate, hreply⟩
      cases hproceed
      have hdeciding : s.receiver.stage = .deciding := by
        rw [hsetup]
        rfl
      rcases hsound.phase_of_deciding hdeciding with
        ⟨hsender, hquiet, hreports⟩
      apply hsound.setup_moves
      · rfl
      · simp [receiverMoves, deliversNext, hsetup]
      · exact ⟨rfl, hstate⟩
      · apply Phase.answered message []
        · exact hsender
        · rfl
        · exact hquiet
        · simp [receiverMoves, hreports, ReceiverOutput.messages]
        · exact ⟨_, hreply⟩
        · simp
      · rw [hsetup]
        exact Or.inr rfl
      · intro index
        simp only [count_allCopies, receiverMoves, hsetup, hreports,
          List.nil_append, ReceiverOutput.messages, Receiver.ofSetup,
          Receiver.copies, Receiver.outstanding, Receiver.pending?,
          Copies.count_none, count_messageCopies_nil, frames]
        omega
  | openFile m state =>
      cases hproceed
      rw [receiverMoves_setup hsetup rfl]
      apply hsound.moves_on
      · exact hreceiver
      · rw [hsetup]
        rfl
      · rw [hsetup]
        exact fun index => rfl
      · rw [hsetup]
        exact Or.inr rfl
  | ready m state =>
      rcases hreceiver with ⟨rfl, hstate⟩
      cases hproceed
      rw [receiverMoves_setup hsetup rfl]
      have hbooks := hlaws.loop.start_books
        (.start setting.outputDir setting.manifest state)
      apply hsound.moves_on
      · refine ⟨hlaws.loop.start_regular _, ?_, ?_⟩
        · rw [hbooks]
          rfl
        · intro index hindex
          rw [hbooks] at hindex
          have hmissing : index ∈ state.missingChunks := by
            simpa [Books.start] using hindex
          rw [TransferState.mem_missingChunks, hstate] at hmissing
          exact hmissing.1
      · rw [hsetup]
        rfl
      · intro index
        rw [hsetup]
        have hheld := hlaws.start_held
          (.start setting.outputDir setting.manifest state) index
        simp only [Receiver.copies, hheld, Receiver.outstanding,
          Receiver.pending?, hbooks]
        simp [Books.start]
      · rw [hsetup]
        simp only [Receiver.pending?, hbooks]
        exact Or.inr rfl
  | failed error => exact hreceiver.elim

/-- What the chunks a step delivers do to the balance of one index. -/
theorem balance_of_move {before after : Copies}
    {pending pending' : Finset ℕ} {delivered : List ℕ}
    {output : ReceiverOutput} {others index : ℕ}
    (hmove : LoopMove before after pending pending' delivered output
      setting.manifest)
    (hbalance : others + before.count index =
      if index ∈ pending then 1 else 0) :
    others + (messageCopies setting.manifest output.messages).count index +
        after.count index = (if index ∈ pending' then 1 else 0) ∧
      (index ∈ delivered → index ∈ pending) := by
  have hcount := hmove.count index
  have hpending := hmove.pending index
  by_cases hdelivered : index ∈ delivered
  · have hone : delivered.count index = 1 :=
      List.count_eq_one_of_mem hmove.delivered_nodup hdelivered
    have hnot : index ∉ pending' := fun hmem =>
      (hpending.mp hmem).2 hdelivered
    have hbefore : index ∈ pending := by
      by_contra hmissing
      rw [if_neg hmissing] at hbalance
      omega
    rw [if_pos hbefore] at hbalance
    rw [if_neg hnot]
    exact ⟨by omega, fun _ => hbefore⟩
  · have hzero : delivered.count index = 0 :=
      List.count_eq_zero_of_not_mem hdelivered
    have hsame : index ∈ pending' ↔ index ∈ pending := by
      rw [hpending]
      exact and_iff_left hdelivered
    simp only [hsame]
    exact ⟨by omega, fun hmem => absurd hmem hdelivered⟩

theorem sound_loop (hlaws : kind.Laws setting)
    (hsound : Sound kind setting s) {loop : Loop}
    {receiver : Receiver Loop} {output : ReceiverOutput}
    (hloop : s.receiver = .loop loop)
    (hproceed : kind.loop.proceed loop = some (receiver, output)) :
    Sound kind setting (s.receiverMoves kind receiver output) := by
  have hreceiver := hsound.receiver
  rw [hloop] at hreceiver
  rcases hreceiver with ⟨hregular, hmanifest, hlt⟩
  rcases hlaws.move hproceed with ⟨pending', hpending, hmove⟩
  have houtstanding : s.receiver.outstanding kind.loop.books =
      (kind.loop.books loop).pending := by
    rw [hloop]
    rfl
  have hcopies : s.receiver.copies setting.manifest kind.held =
      kind.held loop := by
    rw [hloop]
    rfl
  have hdelivers : s.deliversNext kind = kind.delivers loop := by
    simp [deliversNext, hloop]
  have hafter : receiver.outstanding kind.loop.books = pending' := by
    simp [Receiver.outstanding, hpending]
  have hbalance : ∀ index,
      (kind.copies setting.manifest s.sender).count index +
          s.frames.count index +
          (messageCopies setting.manifest s.reports).count index +
          (kind.held loop).count index =
        if index ∈ (kind.loop.books loop).pending then 1 else 0 := by
    intro index
    have hall := hsound.balance index
    rw [count_allCopies, hcopies, houtstanding] at hall
    exact hall
  have hstage : s.receiver.stage = .answered := by
    rw [hloop]
    rfl
  have hpending' : ∀ index ∈ pending', index < setting.manifest.chunkCount :=
    fun index hindex => hlt index ((hmove.pending index).mp hindex).1
  have hnext : receiver.Sound kind.loop setting.manifest ∧
      receiver.stage = .answered := by
    rcases hlaws.loop.proceed_cases hregular hproceed with
      ⟨next, rfl, _, hfacts⟩ | ⟨_, rfl, _⟩
    · have hbooks : (kind.loop.books next).pending = pending' := by
        simpa [Receiver.pending?] using hpending
      refine ⟨⟨hfacts.regular, hfacts.manifest.trans hmanifest, ?_⟩, rfl⟩
      rw [hbooks]
      exact hpending'
    · exact ⟨hlt, rfl⟩
  have hsubset : ∀ index ∈ kind.delivers loop,
      index ∈ (kind.loop.books loop).pending :=
    fun index => (balance_of_move hmove (hbalance index)).2
  constructor
  · exact hsound.orderly
  · exact hsound.sized
  · exact hnext.1
  · apply hsound.phase_of_answered hstage
    · rfl
    · rfl
    · exact hnext.2
    · exact ⟨output.messages, rfl, hmove.reports⟩
  · intro index
    have hmoved := (balance_of_move hmove (hbalance index)).1
    have hframes : (s.receiverMoves kind receiver output).frames = s.frames :=
      rfl
    rw [count_allCopies, hframes]
    simp only [receiverMoves, hafter, count_messageCopies_append]
    omega
  · intro hnone
    simp only [receiverMoves, hpending] at hnone
    contradiction
  · have hold := hsound.delivered
    rw [houtstanding] at hold
    simp only [receiverMoves, hdelivers]
    apply hsound.delivered_nodup.append hmove.delivered_nodup
    intro index hindex hdelivered
    exact hold index hindex (hsubset index hdelivered)
  · have hold := hsound.delivered
    rw [houtstanding] at hold
    intro index hindex hmem
    simp only [receiverMoves, hdelivers, List.mem_append, hafter] at hindex hmem
    have hboth := (hmove.pending index).mp hmem
    rcases hindex with hbefore | hnow
    · exact hold index hbefore hboth.1
    · exact hboth.2 hnow

theorem count_frames_pop {stream : Stream} {item : Item} {rest : List Item}
    (hstream : s.streams stream = item :: rest) (index : ℕ) :
    (s.pop stream rest).frames.count index + item.indices.count index =
      s.frames.count index := by
  have hupdate := count_frames_update s.streams stream rest index
  rw [hstream] at hupdate
  simp only [List.flatMap_cons, List.count_append] at hupdate
  simp only [frames, pop]
  omega

theorem sound_receiverHears (hsound : Sound kind setting s)
    {item : Item} {rest : List Item} {receiver : Receiver Loop}
    {result : Except Error ControlMessage}
    (hstream : s.streams .control = item :: rest)
    (hresult : ∀ message, item = .ctrl message → result = .ok message)
    (hreceived : s.receiver.received result = some receiver) :
    Sound kind setting ({ s with receiver }.pop .control rest) := by
  cases hbefore : s.receiver with
  | setup setup =>
      rw [hbefore] at hreceived
      cases setup with
      | recvManifest =>
          have hunheard : s.receiver.stage = .unheard := by
            rw [hbefore]
            rfl
          rcases hsound.phase_of_unheard hunheard with ⟨hsent, hreports⟩
          rcases hsent with ⟨_, hquiet⟩ | ⟨hsender, hcontrol, hdata⟩
          · rw [hquiet .control] at hstream
            contradiction
          · rw [hcontrol, List.cons.injEq] at hstream
            rcases hstream with ⟨rfl, rfl⟩
            rw [hresult _ rfl] at hreceived
            cases hreceived
            apply hsound.setup_moves
            · rfl
            · rfl
            · rfl
            · apply Phase.deciding
              · exact hsender
              · rfl
              · intro stream
                cases stream with
                | control => simp [pop]
                | data => simpa [pop] using hdata
              · exact hreports
            · rw [hbefore]
              exact Or.inl rfl
            · intro index
              have hpop := count_frames_pop hcontrol index
              simp only [Item.indices, List.count_nil, Nat.add_zero] at hpop
              simp only [count_allCopies, hbefore, ← hpop]
              rfl
      | _ => contradiction
  | loop loop =>
      rw [hbefore] at hreceived
      contradiction
  | returned books =>
      rw [hbefore] at hreceived
      contradiction
  | failed error =>
      rw [hbefore] at hreceived
      contradiction

theorem sound_receiverLooksUp (hsound : Sound kind setting s)
    {receiver : Receiver Loop}
    (hlookup : s.receiver.lookup setting.outputDir setting.pathExists
      setting.files = some receiver) :
    Sound kind setting { s with receiver } := by
  have hreceiver := hsound.receiver
  cases hbefore : s.receiver with
  | setup setup =>
      rw [hbefore] at hlookup hreceiver
      cases setup with
      | lookup m =>
          have hm : m = setting.manifest := hreceiver
          subst m
          simp only [Receiver.lookup, Option.some.injEq] at hlookup
          cases hfound : findResumable setting.pathExists setting.files
              setting.manifest setting.outputDir with
          | none =>
              rw [hfound] at hlookup
              subst hlookup
              apply hsound.moves_on
              · rfl
              · rw [hbefore]
                rfl
              · rw [hbefore]
                exact fun index => rfl
              · rw [hbefore]
                exact Or.inl rfl
          | some state =>
              rw [hfound] at hlookup
              subst hlookup
              have hstate := setting.resumes state hfound
              have hreply : replySkip
                  (.ok (.resumeRequest state.haveChunks)) =
                    .ok state.chunksDone := by
                simp [replySkip, TransferState.haveChunks]
              apply hsound.moves_on
              · exact ⟨rfl, hstate, hreply⟩
              · rw [hbefore]
                rfl
              · intro index
                rw [hbefore]
                have hcount := count_reply hstate hreply index
                simp only [Receiver.ofSetup, Setup.afterLookup,
                  Receiver.copies, hcount, Receiver.outstanding,
                  Receiver.pending?]
                simp
              · rw [hbefore]
                exact Or.inl rfl
      | _ => contradiction
  | loop loop =>
      rw [hbefore] at hlookup
      contradiction
  | returned books =>
      rw [hbefore] at hlookup
      contradiction
  | failed error =>
      rw [hbefore] at hlookup
      contradiction

/-- Once the receiver has answered, only chunk frames that can be read to their
end are on the streams. -/
theorem Sound.framed_of_answered (hsound : Sound kind setting s)
    (hstage : s.receiver.stage = .answered) :
    ∀ stream, ∀ item ∈ s.streams stream, item.Framed setting.manifest := by
  cases hsound.phase with
  | silent _ hbefore _ _ =>
      rw [hstage] at hbefore
      contradiction
  | announced _ hbefore _ _ _ =>
      rw [hstage] at hbefore
      contradiction
  | deciding _ hbefore _ _ =>
      rw [hstage] at hbefore
      contradiction
  | answered _ _ _ _ hquiet _ _ _ =>
      intro stream item hitem
      rw [hquiet stream] at hitem
      contradiction
  | running _ _ hframed _ => exact hframed

theorem framed_pop {stream : Stream} {item : Item} {rest : List Item}
    (hstream : s.streams stream = item :: rest)
    (hframed : ∀ stream, ∀ item ∈ s.streams stream,
      item.Framed setting.manifest) :
    ∀ other, ∀ item ∈ Function.update s.streams stream rest other,
      item.Framed setting.manifest := by
  intro other item' hitem
  by_cases hother : other = stream
  · subst hother
    rw [Function.update_self] at hitem
    apply hframed other
    rw [hstream]
    exact List.mem_cons_of_mem _ hitem
  · rw [Function.update_of_ne hother] at hitem
    exact hframed other item' hitem

theorem sound_receiverReads (hlaws : kind.Laws setting)
    (hsound : Sound kind setting s) {loop : Loop} {frame : Frame}
    {rest : List Item} {receiver : Receiver Loop}
    (hloop : s.receiver = .loop loop)
    (hstream : s.streams kind.dataStream = .chunk frame :: rest)
    (hreceive : kind.loop.receive setting.read setting.msgPack.decode
      (kind.wire frame) loop = some receiver) :
    Sound kind setting ({ s with receiver }.pop kind.dataStream rest) := by
  have hreceiver := hsound.receiver
  rw [hloop] at hreceiver
  rcases hreceiver with ⟨hregular, hmanifest, hlt⟩
  have hstage : s.receiver.stage = .answered := by
    rw [hloop]
    rfl
  have hframed := hsound.framed_of_answered hstage
  have hframe : frame.WellFramed (maxPayload setting.manifest) := by
    apply hframed kind.dataStream (.chunk frame)
    rw [hstream]
    exact List.mem_cons_self
  have hpop := count_frames_pop hstream
  have hpending : frame.index ∈ (kind.loop.books loop).pending := by
    have hmem : frame.index ∈ s.receiver.outstanding kind.loop.books := by
      apply hsound.mem_outstanding
      have hframes := hpop frame.index
      simp only [Item.indices, List.count_singleton_self] at hframes
      rw [count_allCopies]
      omega
    rw [hloop] at hmem
    exact hmem
  rcases hlaws.receive_frame hmanifest hframe hpending hreceive with
    ⟨next, rfl, hbooks, hcount⟩
  rcases hlaws.loop.receive_cases hregular hreceive with
    ⟨error, herror⟩ | ⟨next', hnext, _, hfacts⟩
  · contradiction
  · cases hnext
    apply hsound.setup_moves
    · rfl
    · rfl
    · refine ⟨hfacts.regular, hfacts.manifest.trans hmanifest, ?_⟩
      rw [hbooks]
      exact hlt
    · have hmoved : Phase kind setting
          ({ s with receiver := .loop next } : Network Sender Loop) := by
        apply hsound.phase_of_answered hstage
        · rfl
        · rfl
        · rfl
        · exact ⟨[], (List.append_nil _).symm, by simp⟩
      cases hmoved with
      | silent _ hbefore _ _ => contradiction
      | announced _ hbefore _ _ _ => contradiction
      | deciding _ hbefore _ _ => contradiction
      | answered _ _ _ _ hquiet _ _ _ =>
          have hempty := hquiet kind.dataStream
          rw [hstream] at hempty
          contradiction
      | running hreplied hanswered _ hreports =>
          exact Phase.running hreplied hanswered (framed_pop hstream hframed)
            hreports
    · rw [hloop]
      simp only [pop, Receiver.pending?, hbooks]
      exact Or.inr trivial
    · intro index
      have hframes := hpop index
      have hheld := hcount index
      have hset : (Receiver.loop next).outstanding kind.loop.books =
          s.receiver.outstanding kind.loop.books := by
        simp [hloop, Receiver.outstanding, Receiver.pending?, hbooks]
      have hpopped : ({ s with receiver := .loop next }.pop kind.dataStream
          rest : Network Sender Loop).frames =
            (s.pop kind.dataStream rest).frames := rfl
      simp only [Item.indices] at hframes
      rw [count_allCopies, count_allCopies, hpopped]
      simp only [pop, Receiver.copies, hset, hloop] at hframes ⊢
      omega

/-! ## Corruption -/

theorem flatMap_set {items : List Item} {position : ℕ} {item next : Item}
    (hitem : items[position]? = some item)
    (hindices : next.indices = item.indices) :
    (items.set position next).flatMap Item.indices =
      items.flatMap Item.indices := by
  rcases List.getElem?_eq_some_iff.mp hitem with ⟨hposition, hget⟩
  have hmap : (items.set position next).map Item.indices =
      items.map Item.indices := by
    apply List.ext_getElem
    · simp
    · intro other _ _
      by_cases hother : position = other
      · subst hother
        simp [hindices, hget]
      · simp [hother]
  rw [List.flatMap_def, List.flatMap_def, hmap]

theorem sound_corrupt (hsound : Sound kind setting s) {stream : Stream}
    {position : ℕ} {item next : Item} {subs : List Bytes}
    (hitem : (s.streams stream)[position]? = some item)
    (hoverwrite : item.overwrite subs = some next) :
    Sound kind setting
      (s.pop stream ((s.streams stream).set position next)) := by
  rcases Item.overwrite_eq_some hoverwrite with
    ⟨⟨frame, rfl⟩, hindices, hkeeps⟩
  have hmem := List.mem_of_getElem? hitem
  have hnot : ∀ items : List Item, s.streams stream = items →
      .chunk frame ∈ items := by
    rintro items rfl
    exact hmem
  apply hsound.sender_moves
  · exact hsound.orderly
  · exact hsound.sized
  · rfl
  · rfl
  · cases hsound.phase with
    | silent _ _ hquiet _ =>
        have hempty := hnot _ (hquiet stream)
        contradiction
    | announced _ _ hcontrol hdata _ =>
        cases stream with
        | control =>
            have hctrl := hnot _ hcontrol
            simp at hctrl
        | data =>
            have hempty := hnot _ hdata
            contradiction
    | deciding _ _ hquiet _ =>
        have hempty := hnot _ (hquiet stream)
        contradiction
    | answered _ _ _ _ hquiet _ _ _ =>
        have hempty := hnot _ (hquiet stream)
        contradiction
    | running hreplied hanswered hframed hreports =>
        refine Phase.running hreplied hanswered ?_ hreports
        intro other item hother
        by_cases hstream : other = stream
        · subst hstream
          simp only [pop, Function.update_self] at hother
          rcases List.mem_or_eq_of_mem_set hother with hold | rfl
          · exact hframed _ item hold
          · exact hkeeps _ (hframed _ _ hmem)
        · simp only [pop, Function.update_of_ne hstream] at hother
          exact hframed other item hother
  · intro index
    have hupdate := count_frames_update s.streams stream
      ((s.streams stream).set position next) index
    rw [flatMap_set hitem hindices] at hupdate
    rw [count_allCopies, count_allCopies]
    simp only [pop, frames] at hupdate ⊢
    omega

/-! ## Every reachable state -/

theorem sound_next (hlaws : kind.Laws setting)
    (hsound : Sound kind setting s) {event : NetworkEvent}
    (hnext : next kind setting s event = some t) : Sound kind setting t := by
  cases event with
  | sender event =>
      simp only [next] at hnext
      split at hnext
      next hregular =>
        rcases Option.map_eq_some_iff.mp hnext with
          ⟨⟨sender, output⟩, hstep, rfl⟩
        exact sound_sender hlaws hsound hregular hstep
      next => contradiction
  | senderHears =>
      simp only [next] at hnext
      split at hnext
      next message reports hreports =>
        rcases Option.map_eq_some_iff.mp hnext with
          ⟨⟨sender, output⟩, hstep, rfl⟩
        exact sound_senderHears hlaws hsound hreports hstep
      next => contradiction
  | receiverProceeds =>
      simp only [next] at hnext
      split at hnext
      next => contradiction
      next =>
        rcases Option.map_eq_some_iff.mp hnext with
          ⟨⟨receiver, output⟩, hproceed, rfl⟩
        cases hreceiver : s.receiver with
        | setup setup => exact sound_setup hlaws hsound hreceiver hproceed
        | loop loop =>
            rw [hreceiver] at hproceed
            exact sound_loop hlaws hsound hreceiver hproceed
        | returned books =>
            rw [hreceiver] at hproceed
            contradiction
        | failed error =>
            rw [hreceiver] at hproceed
            contradiction
  | receiverHears =>
      simp only [next] at hnext
      split at hnext
      next message rest hstream =>
        rcases Option.map_eq_some_iff.mp hnext with
          ⟨receiver, hreceived, rfl⟩
        apply sound_receiverHears hsound hstream _ hreceived
        intro other hother
        cases hother
        rfl
      next frame rest hstream =>
        rcases Option.map_eq_some_iff.mp hnext with
          ⟨receiver, hreceived, rfl⟩
        apply sound_receiverHears hsound hstream _ hreceived
        intro other hother
        contradiction
      next => contradiction
  | receiverLooksUp =>
      rcases Option.map_eq_some_iff.mp hnext with ⟨receiver, hlookup, rfl⟩
      exact sound_receiverLooksUp hsound hlookup
  | receiverReads =>
      simp only [next] at hnext
      split at hnext
      next loop frame rest hloop hstream =>
        rcases Option.map_eq_some_iff.mp hnext with ⟨receiver, hreceive, rfl⟩
        exact sound_receiverReads hlaws hsound hloop hstream hreceive
      next loop message rest hloop hstream =>
        have hstage : s.receiver.stage = .answered := by
          rw [hloop]
          rfl
        have hframed := hsound.framed_of_answered hstage kind.dataStream
          (.ctrl message)
        rw [hstream] at hframed
        exact (hframed List.mem_cons_self).elim
      next => contradiction
  | corrupt stream position subs =>
      rcases Option.bind_eq_some_iff.mp hnext with ⟨item, hitem, hresult⟩
      rcases Option.map_eq_some_iff.mp hresult with
        ⟨item', hoverwrite, rfl⟩
      exact sound_corrupt hsound hitem hoverwrite

theorem sound_of_reachable (hlaws : kind.Laws setting)
    (hreach : (machine kind setting).Reachable s) : Sound kind setting s :=
  hreach.invariant (fun _ hstart => sound_of_starts hlaws hstart)
    fun _ _ _ hsound hnext => sound_next hlaws hsound hnext

/-- Each chunk the receiver misses has one copy, each other chunk none. -/
structure OneCopyEach (kind : NetworkKind Sender Loop)
    (setting : NetworkSetting) (s : Network Sender Loop) : Prop where
  one_copy : ∀ pending, s.receiver.pending? kind.loop.books = some pending →
    ∀ index,
      (s.allCopies kind setting).stillToSend.count index +
          (s.allCopies kind setting).inFlight.count index +
          (s.allCopies kind setting).nackInFlight.count index +
          (s.allCopies kind setting).nackQueued.count index =
        if index ∈ pending then 1 else 0
  delivered_once : s.delivered.Nodup
  delivered_not_pending : ∀ pending,
    s.receiver.pending? kind.loop.books = some pending →
      ∀ index ∈ s.delivered, index ∉ pending
  nothing_left : s.receiver.pending? kind.loop.books = some ∅ →
    s.allCopies kind setting = Copies.none

theorem Sound.oneCopyEach (hsound : Sound kind setting s) :
    OneCopyEach kind setting s := by
  have houtstanding : ∀ pending,
      s.receiver.pending? kind.loop.books = some pending →
        s.receiver.outstanding kind.loop.books = pending := by
    intro pending hpending
    simp [Receiver.outstanding, hpending]
  constructor
  · intro pending hpending index
    have hbalance := hsound.balance index
    rw [houtstanding pending hpending] at hbalance
    exact hbalance
  · exact hsound.delivered_nodup
  · intro pending hpending index hindex
    rw [← houtstanding pending hpending]
    exact hsound.delivered index hindex
  · intro hpending
    apply Copies.eq_none_of_count
    intro index
    have hbalance := hsound.balance index
    rw [houtstanding ∅ hpending] at hbalance
    simpa using hbalance

end Network

/-- In a direct and in a relay transfer, whatever the interleaving and the
corruption, each missing chunk has exactly one copy on its way. -/
theorem one_copy_of_each_missing_chunk (setting : NetworkSetting) :
    (∀ s, (Network.machine directNetwork setting).Reachable s →
        Network.OneCopyEach directNetwork setting s) ∧
      ∀ s, (Network.machine relayNetwork setting).Reachable s →
        Network.OneCopyEach relayNetwork setting s := by
  constructor
  · intro s hreach
    have hsound :=
      Network.sound_of_reachable (directNetwork_laws setting) hreach
    exact hsound.oneCopyEach
  · intro s hreach
    have hsound :=
      Network.sound_of_reachable (relayNetwork_laws setting) hreach
    exact hsound.oneCopyEach

/-! ## A corrupted frame

The only chunk of a file is corrupted on its way, NACKed, and waits for its
retransmission. -/

def fifoSetting : NetworkSetting where
  noise := lookupNoise
  read := tagRead
  msgPack := rmpSerde
  manifestSource := sampleSource
  outputDir := ['d']
  pathExists := fun _ => false
  files := fun _ => .absent
  resumes := by
    intro state hfound
    simp [findResumable] at hfound

def Network.fresh {Sender Loop : Type} (kind : NetworkKind Sender Loop) :
    Network Sender Loop where
  sender := kind.sender.start
  receiver := .setup kind.firstSetup
  streams := fun _ => []
  seen := fun _ => false
  reports := []
  delivered := []

theorem Network.starts_fresh {Sender Loop : Type}
    (kind : NetworkKind Sender Loop) : Starts kind (fresh kind) where
  sender := rfl
  receiver := rfl
  streams := fun _ => rfl
  seen := fun _ => rfl
  reports := rfl
  delivered := rfl

def corruptedDirect : Option (Network DirectSender DirectLoop) :=
  (Network.machine directNetwork fifoSetting).runFrom
    (Network.fresh directNetwork)
    ([.sender .proceed, .receiverProceeds, .receiverHears, .receiverLooksUp] ++
      List.replicate 5 .receiverProceeds ++
      [.senderHears, .sender .proceed, .sender (.read [1, 2, 3]),
        .sender .proceed, .sender .proceed,
        .corrupt .data 0 [List.replicate 19 1], .receiverProceeds,
        .receiverReads, .receiverProceeds, .senderHears])

def corruptedRelay : Option (Network RelaySender RelayLoop) :=
  (Network.machine relayNetwork fifoSetting).runFrom
    (Network.fresh relayNetwork)
    ([.sender .proceed, .receiverHears, .receiverLooksUp] ++
      List.replicate 6 .receiverProceeds ++
      [.senderHears, .sender .proceed, .sender (.read [1, 2, 3]),
        .sender .proceed, .corrupt .control 0 [List.replicate 19 1],
        .receiverReads, .receiverProceeds, .senderHears])

theorem one_copy_of_each_missing_chunk_sample :
    (∃ s, corruptedDirect = some s ∧
      (s.allCopies directNetwork fifoSetting).nackQueued = [0] ∧
      Network.OneCopyEach directNetwork fifoSetting s) ∧
    ∃ s, corruptedRelay = some s ∧
      (s.allCopies relayNetwork fifoSetting).nackQueued = [0] ∧
      Network.OneCopyEach relayNetwork fifoSetting s := by
  have hdirect : corruptedDirect.map (fun s =>
      (s.allCopies directNetwork fifoSetting).nackQueued) = some [0] := by
    decide +kernel
  have hrelay : corruptedRelay.map (fun s =>
      (s.allCopies relayNetwork fifoSetting).nackQueued) = some [0] := by
    decide +kernel
  rcases Option.map_eq_some_iff.mp hdirect with ⟨s, hrun, hqueued⟩
  rcases Option.map_eq_some_iff.mp hrelay with ⟨t, hrun', hqueued'⟩
  have hreach := Machine.Reachable.of_runFrom
    (Network.starts_fresh directNetwork) hrun
  have hreach' := Machine.Reachable.of_runFrom
    (Network.starts_fresh relayNetwork) hrun'
  rcases one_copy_of_each_missing_chunk fifoSetting with ⟨hdirects, hrelays⟩
  exact ⟨⟨s, hrun, hqueued, hdirects s hreach⟩,
    ⟨t, hrun', hqueued', hrelays t hreach'⟩⟩

end P2pShare
