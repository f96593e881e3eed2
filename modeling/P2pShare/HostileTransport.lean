import P2pShare.TransitionMachine
import P2pShare.RandomAccessFile
import P2pShare.SenderKinds
import P2pShare.LoopKinds
import P2pShare.ControlCodec

/-!
# A session over a hostile transport

One sender and one receiver, joined by a transport that delivers whatever bytes
it likes: every read of either side takes its input from the event.  What the
peers have sealed is kept in two logs, on which the reads of the Noise session
depend.  A chunk write of the direct receiver lands in a step of its own.

`Session.Sound` is the invariant; it rests on the laws of the two kinds.
-/

namespace P2pShare

open ByteStream PathResolution RandomAccessFile TransitionMachine

/-- What is fixed during a session.  The file is the one the manifest was built
from, and its chunk count fits in `u32`. -/
structure Setting where
  toReceiver : Noise
  toSender : Noise
  msgPack : MsgPack
  manifestSource : ManifestSource
  source : Bytes
  outputDir : RawPath
  pathExists : RawPath → Bool
  source_length : source.length = manifestSource.totalSize
  chunkCount_fits :
    manifestSource.totalSize ⌈/⌉ chunkSizeFor manifestSource.totalSize < 2 ^ 32

def Setting.manifest (setting : Setting) : FileManifest :=
  buildManifest setting.manifestSource

structure SessionKind (Sender Loop : Type) where
  sender : SenderKind Sender
  loop : LoopKind Loop
  recvCtrl : (ℕ → Bytes → Option Bytes) → (Bytes → Option ControlMessage) →
    Bytes → Option (Except Error ControlMessage × Bytes)
  firstSetup : Setup

def directSession : SessionKind DirectSender DirectLoop where
  sender := directSenderKind
  loop := directLoopKind
  recvCtrl := recvCtrl
  firstSetup := .acceptBi

def relaySession : SessionKind RelaySender RelayLoop where
  sender := relaySenderKind
  loop := relayLoopKind
  recvCtrl := recvCtrlMsg
  firstSetup := .recvManifest

/-- The output file, the write that was handed to a task and has not landed,
and the saved states. -/
structure Disk where
  file : Bytes
  inFlight : Option (ℕ × Bytes)
  files : StateFiles

/-- `sent` lists the messages the receiver has passed to `send_ctrl`. -/
structure Session (Sender Loop : Type) where
  sender : Sender
  receiver : Receiver Loop
  senderLog : List Sealed
  receiverLog : List Sealed
  senderNonce : ℕ
  receiverNonce : ℕ
  sent : List ControlMessage
  disk : Disk

inductive SessionEvent where
  | sender (event : SenderEvent)
  | senderHears (input : Bytes)
  | receiverProceeds
  | receiverFails (error : Error) (effect : Bool)
  | receiverLooksUp
  | receiverHears (input : Bytes)
  | frame (input : Bytes)
  | land

/-- A control message is not an event of the sender alone, and what it reads is
the source. -/
def SenderEvent.isLocal (source : Bytes) : SenderEvent → Bool
  | .received _ => false
  | .read file | .ctrlRead file => file == source
  | _ => true

namespace Disk

def apply (background : Bool) (disk : Disk) : FileOp → Disk
  | .createDirAll _ | .openWrite _ => disk
  | .create _ => { disk with file := [] }
  | .setLen _ length => { disk with file := setLen disk.file length }
  | .write _ offset bytes =>
      if background then { disk with inFlight := some (offset, bytes) }
      else { disk with file := writeAt disk.file offset bytes }

/-- The output file once the write in flight has landed. -/
def landed (disk : Disk) : Bytes :=
  match disk.inFlight with
  | none => disk.file
  | some (offset, bytes) => writeAt disk.file offset bytes

theorem landed_of_inFlight_eq_none {disk : Disk}
    (hinFlight : disk.inFlight = none) : disk.landed = disk.file := by
  simp [landed, hinFlight]

/-- Handed to a task or written at once, the bytes are where they belong once
everything has landed. -/
theorem landed_apply_write {disk : Disk} (hinFlight : disk.inFlight = none)
    (background : Bool) (path : RawPath) (offset : ℕ) (bytes : Bytes) :
    (disk.apply background (.write path offset bytes)).landed =
      writeAt disk.file offset bytes := by
  cases background with
  | true => simp [apply, landed]
  | false => simp [apply, landed, hinFlight]

end Disk

namespace Session

variable {Sender Loop : Type} (kind : SessionKind Sender Loop)
  (setting : Setting)

def readByReceiver (s : Session Sender Loop) : ℕ → Bytes → Option Bytes :=
  setting.toReceiver.readMessage s.senderLog

def readBySender (s : Session Sender Loop) : ℕ → Bytes → Option Bytes :=
  setting.toSender.readMessage s.receiverLog

def emitSender (s : Session Sender Loop) :
    SenderOutput → Option (Session Sender Loop)
  | .ctrl message =>
      let plaintext := setting.msgPack.encode message
      (setting.toReceiver.writeMessage s.senderNonce plaintext).map fun _ =>
        { s with
          senderLog :=
            s.senderLog ++ [setting.toReceiver.sealed s.senderNonce plaintext]
          senderNonce := s.senderNonce + 1 }
  | .sealChunk index plaintext =>
      some
        { s with
          senderLog :=
            s.senderLog ++ sealedChunk setting.toReceiver index plaintext }
  | .none | .frame _ _ | .finish => some s

def emitReceiver (s : Session Sender Loop) :
    ReceiverOutput → Option (Session Sender Loop)
  | .none => some s
  | .ctrl message =>
      let plaintext := setting.msgPack.encode message
      (setting.toSender.writeMessage s.receiverNonce plaintext).map fun _ =>
        { s with
          receiverLog :=
            s.receiverLog ++ [setting.toSender.sealed s.receiverNonce plaintext]
          receiverNonce := s.receiverNonce + 1
          sent := s.sent ++ [message] }
  | .file op =>
      some { s with disk := s.disk.apply kind.loop.background op }
  | .save state =>
      some { s with disk.files := state.save s.disk.files }
  | .delete state =>
      some { s with disk.files := state.delete s.disk.files }

/-- The receiver awaits a write that has not landed. -/
def blocked (s : Session Sender Loop) : Bool :=
  match s.receiver with
  | .loop loop => kind.loop.joins loop && s.disk.inFlight.isSome
  | _ => false

def stepReceiver (s : Session Sender Loop) (event : ReceiverEvent) :
    Option (Session Sender Loop) :=
  (s.receiver.step kind.loop.toReceiveLoop setting.outputDir event).bind
    fun (receiver, output) =>
      emitReceiver kind setting { s with receiver } output

def stepSender (s : Session Sender Loop) (event : SenderEvent) :
    Option (Session Sender Loop) :=
  (kind.sender.step setting.manifest s.sender event).bind
    fun (sender, output) => emitSender setting { s with sender } output

def next (s : Session Sender Loop) :
    SessionEvent → Option (Session Sender Loop)
  | .sender event =>
      if event.isLocal setting.source then stepSender kind setting s event
      else none
  | .senderHears input =>
      (kind.recvCtrl (s.readBySender setting) setting.msgPack.decode
        input).bind fun (result, _) =>
          stepSender kind setting s (.received result)
  | .receiverProceeds =>
      if s.blocked kind then none else stepReceiver kind setting s .proceed
  | .receiverFails error effect =>
      stepReceiver kind setting s (.fail error effect)
  | .receiverLooksUp =>
      stepReceiver kind setting s (.lookup setting.pathExists s.disk.files)
  | .receiverHears input =>
      (kind.recvCtrl (s.readByReceiver setting) setting.msgPack.decode
        input).bind fun (result, _) =>
          stepReceiver kind setting s (.received result)
  | .frame input =>
      match s.receiver with
      | .loop loop =>
          (kind.loop.receive (s.readByReceiver setting) setting.msgPack.decode
            input loop).map fun receiver => { s with receiver }
      | _ => none
  | .land =>
      s.disk.inFlight.map fun (offset, bytes) =>
        { s with
          disk.file := writeAt s.disk.file offset bytes
          disk.inFlight := none }

/-- The file holds the source's bytes in the place of every chunk listed, and
nothing past the end of the source. -/
structure HoldsChunks (chunksDone : Finset ℕ) (file : Bytes) : Prop where
  length_le : file.length ≤ setting.manifest.totalSize
  agrees : ∀ index ∈ chunksDone, index < setting.manifest.chunkCount →
    Agrees file setting.source (setting.manifest.offset index)
      (setting.manifest.offset index + setting.manifest.sizeOf index)

/-- A saved state that will be resumed has this manifest, and the output file
holds its chunks.  The file is also no longer than the source, as
`file_length_le` shows of one that an interrupted transfer left: a resumed
transfer opens it without `File::create` and `set_len`. -/
def Resumable (disk : Disk) : Prop :=
  ∀ state, findResumable setting.pathExists disk.files setting.manifest
      setting.outputDir = some state →
    state.manifest = setting.manifest ∧
      HoldsChunks setting state.chunksDone disk.file

structure Begins (s : Session Sender Loop) : Prop where
  sender : s.sender = kind.sender.start
  receiver : s.receiver = .setup kind.firstSetup
  senderLog : s.senderLog = []
  receiverLog : s.receiverLog = []
  senderNonce : s.senderNonce = 0
  sent : s.sent = []
  inFlight : s.disk.inFlight = none

structure Starts (s : Session Sender Loop) : Prop
    extends Begins kind s where
  resumable : Resumable setting s.disk

def machine : Machine (Session Sender Loop) SessionEvent where
  start := Starts kind setting
  next := next kind setting

/-! ## The invariant -/

/-- What the sender may have sealed: its manifest, and chunks of the source. -/
def LoggedBySender (entry : Sealed) : Prop :=
  entry = setting.toReceiver.sealed 0
      (setting.msgPack.encode (.manifest setting.manifest)) ∨
    ∃ index plaintext,
      readChunk setting.source setting.manifest index = some plaintext ∧
        entry ∈ sealedChunk setting.toReceiver index plaintext

structure SenderSound (s : Session Sender Loop) : Prop where
  honest : ∀ index plaintext, kind.sender.holds s.sender index plaintext →
    readChunk setting.source setting.manifest index = some plaintext
  nonce : s.sender = kind.sender.start → s.senderNonce = 0
  log : ∀ entry ∈ s.senderLog, LoggedBySender setting entry
  silent : s.sent = [] → ∀ entry ∈ s.senderLog,
    entry.plaintext = setting.msgPack.encode (.manifest setting.manifest)
  replied : kind.sender.replied s.sender → s.sent ≠ []
  sawComplete : kind.sender.sawComplete s.sender → .complete ∈ s.sent

/-- The plaintext is the chunk of the source that belongs at its place. -/
structure RightChunk (index : ℕ) (plaintext : Bytes) : Prop where
  length : plaintext.length = setting.manifest.sizeOf index
  bytes : plaintext =
    (setting.source.drop (setting.manifest.offset index)).take plaintext.length
  inside : plaintext = [] ∨
    setting.manifest.offset index + plaintext.length ≤
      setting.manifest.totalSize

structure LoopSound (disk : Disk) (loop : Loop) : Prop where
  regular : kind.loop.Regular loop
  manifest : (kind.loop.books loop).manifest = setting.manifest
  stateManifest : (kind.loop.books loop).state.manifest = setting.manifest
  holds :
    HoldsChunks setting (kind.loop.books loop).state.chunksDone disk.landed
  held : ∀ index plaintext,
    kind.loop.holding loop = some (index, plaintext) →
      RightChunk setting index plaintext
  covers : ∀ index < setting.manifest.chunkCount,
    index ∈ (kind.loop.books loop).pending ∨
      index ∈ (kind.loop.books loop).state.chunksDone
  settled : kind.loop.writing loop = false → disk.inFlight = none

def SetupSound (sent : List ControlMessage) (disk : Disk) : Setup → Prop
  | .acceptBi | .recvManifest => sent = [] ∧ Resumable setting disk
  | .lookup manifest => manifest = setting.manifest ∧ Resumable setting disk
  | .createDir manifest | .create manifest => manifest = setting.manifest
  | .setLen manifest => manifest = setting.manifest ∧ disk.file = []
  | .reply manifest state message =>
      manifest = setting.manifest ∧ state.manifest = setting.manifest ∧
        HoldsChunks setting state.chunksDone disk.file ∧ message ≠ .complete
  | .openFile manifest state | .ready manifest state =>
      manifest = setting.manifest ∧ state.manifest = setting.manifest ∧
        HoldsChunks setting state.chunksDone disk.file
  | .reject | .failed _ => False

def ReceiverSound (s : Session Sender Loop) : Prop :=
  match s.receiver with
  | .setup setup =>
      s.disk.inFlight = none ∧ SetupSound setting s.sent s.disk setup
  | .loop loop => LoopSound kind setting s.disk loop
  | .returned _ | .failed _ => True

/-- The receiver has nothing left to do but to return. -/
def Closed (s : Session Sender Loop) : Prop :=
  match s.receiver with
  | .setup _ => False
  | .loop loop => kind.loop.completed loop
  | .returned _ | .failed _ => True

/-- The part of the invariant that does not depend on the receiver's state. -/
structure CoreSound (s : Session Sender Loop) : Prop where
  sender : SenderSound kind setting s
  receiverLog : ∀ entry ∈ s.receiverLog, ∃ message ∈ s.sent,
    entry.plaintext = setting.msgPack.encode message
  finished : .complete ∈ s.sent →
    s.disk.file = setting.source ∧ s.disk.inFlight = none

structure Sound (s : Session Sender Loop) : Prop
    extends CoreSound kind setting s where
  closed : .complete ∈ s.sent → s.Closed kind
  receiver : ReceiverSound kind setting s

end Session

structure SessionKind.Laws {Sender Loop : Type}
    (kind : SessionKind Sender Loop) : Prop where
  sender : ∀ manifest, kind.sender.Laws manifest
  loop : kind.loop.Laws
  recvCtrl : ∀ {read decode input message rest},
    kind.recvCtrl read decode input = some (.ok message, rest) →
      ∃ nonce ciphertext plaintext,
        read nonce ciphertext = some plaintext ∧
          decode plaintext = some message
  firstSetup : kind.firstSetup = .acceptBi ∨ kind.firstSetup = .recvManifest

theorem directSession_laws : directSession.Laws where
  sender := directSenderKind_laws
  loop := directLoopKind_laws
  recvCtrl := recvCtrl_ok
  firstSetup := Or.inl rfl

theorem relaySession_laws : relaySession.Laws where
  sender := relaySenderKind_laws
  loop := relayLoopKind_laws
  recvCtrl := recvCtrlMsg_ok
  firstSetup := Or.inr rfl

namespace Session

variable {Sender Loop : Type} {kind : SessionKind Sender Loop}
  {setting : Setting} {s t : Session Sender Loop}

/-! ## Reads -/

/-- A control message that the sender accepts was sent by the receiver. -/
theorem mem_sent_of_recvCtrl (hlaws : kind.Laws)
    (hsound : Sound kind setting s) {input rest : Bytes}
    {message : ControlMessage}
    (hrecv : kind.recvCtrl (s.readBySender setting) setting.msgPack.decode
      input = some (.ok message, rest)) :
    message ∈ s.sent := by
  rcases hlaws.recvCtrl hrecv with
    ⟨nonce, ciphertext, plaintext, hread, hdecode⟩
  have hlogged := setting.toSender.authentic _ _ _ _ hread
  rcases hsound.receiverLog _ hlogged with ⟨sentMessage, hsent, hencode⟩
  have hplain : plaintext = setting.msgPack.encode sentMessage := hencode
  rw [hplain, setting.msgPack.decode_encode, Option.some.injEq] at hdecode
  subst hdecode
  exact hsent

/-- Until the receiver has sent anything, all it can hear is the manifest. -/
theorem eq_manifest_of_recvCtrl (hlaws : kind.Laws)
    (hsound : Sound kind setting s) (hsilent : s.sent = [])
    {input rest : Bytes} {message : ControlMessage}
    (hrecv : kind.recvCtrl (s.readByReceiver setting) setting.msgPack.decode
      input = some (.ok message, rest)) :
    message = .manifest setting.manifest := by
  rcases hlaws.recvCtrl hrecv with
    ⟨nonce, ciphertext, plaintext, hread, hdecode⟩
  have hlogged := setting.toReceiver.authentic _ _ _ _ hread
  have hplain : plaintext =
      setting.msgPack.encode (.manifest setting.manifest) :=
    hsound.sender.silent hsilent _ hlogged
  rw [hplain, setting.msgPack.decode_encode, Option.some.injEq] at hdecode
  exact hdecode.symm

/-! ## Accepted chunks are right -/

theorem ceilDiv_maxPlain_lt {plaintext : Bytes} {index : ℕ}
    (hlength : plaintext.length = setting.manifest.sizeOf index) :
    plaintext.length ⌈/⌉ maxPlain < 2 ^ 16 := by
  have hsize : plaintext.length ≤ 8388608 := by
    rw [hlength]
    exact (FileManifest.sizeOf_le_chunkSize index).trans
      (chunkSizeFor_le setting.manifestSource.totalSize)
  have hceil : plaintext.length ⌈/⌉ maxPlain =
      (plaintext.length + 65519 - 1) / 65519 :=
    Nat.ceilDiv_eq_add_pred_div _ _
  rw [hceil]
  omega

/-- A sub-message read under the nonce of a chunk is that piece of that chunk
of the source. -/
theorem piece_of_read (hsound : Sound kind setting s)
    {index subIndex : ℕ} {sub plain : Bytes} (hsub : subIndex < 2 ^ 16)
    (hread : s.readByReceiver setting (chunkNonce index subIndex) sub =
      some plain) :
    ∃ plaintext,
      readChunk setting.source setting.manifest index = some plaintext ∧
        subIndex < plaintext.length ⌈/⌉ maxPlain ∧
        plain = (plaintext.drop (subIndex * maxPlain)).take maxPlain := by
  have hlogged := setting.toReceiver.authentic _ _ _ _ hread
  rcases hsound.sender.log _ hlogged with
    hmanifest | ⟨other, plaintext, hchunk, hsealed⟩
  · have hnonce : chunkNonce index subIndex = 0 :=
      congrArg Sealed.nonce hmanifest
    have hbase := chunkNonceBase_le_chunkNonce index subIndex
    rw [hnonce] at hbase
    simp [chunkNonceBase] at hbase
  · rcases mem_sealedChunk hsealed with ⟨position, hposition, hnonce, hplain⟩
    have hlength := (readChunk_eq_some hchunk).1
    have hbound := hposition.trans (ceilDiv_maxPlain_lt hlength)
    rcases chunkNonce_inj hsub hbound hnonce with ⟨rfl, rfl⟩
    exact ⟨plaintext, hchunk, hposition, hplain⟩

theorem rightChunk_of_readChunk {index : ℕ} {plaintext : Bytes}
    (hchunk :
      readChunk setting.source setting.manifest index = some plaintext) :
    RightChunk setting index plaintext := by
  rcases readChunk_eq_some hchunk with ⟨hlength, hbytes⟩
  constructor
  · exact hlength
  · rw [hlength]
    exact hbytes
  · by_cases hempty : plaintext = []
    · exact Or.inl hempty
    · right
      have hpos : 0 < setting.manifest.sizeOf index := by
        rw [← hlength]
        exact List.length_pos_iff.mpr hempty
      have hinside := readChunk_offset_le hchunk hpos
      rw [setting.source_length] at hinside
      rw [hlength]
      exact hinside

/-- Consecutive sub-messages of the size of a chunk are the whole chunk. -/
theorem rightChunk_of_decrypts (hsound : Sound kind setting s)
    {index : ℕ} {plaintext : Bytes}
    (hlength : plaintext.length = setting.manifest.sizeOf index)
    (hdecrypts : Decrypts (s.readByReceiver setting) index plaintext) :
    RightChunk setting index plaintext := by
  rcases hdecrypts with ⟨plains, rfl, hcount, hplains⟩
  have hpiece : ∀ subIndex plain, plains[subIndex]? = some plain →
      ∃ chunk,
        readChunk setting.source setting.manifest index = some chunk ∧
          subIndex < chunk.length ⌈/⌉ maxPlain ∧
          plain = (chunk.drop (subIndex * maxPlain)).take maxPlain := by
    intro subIndex plain hget
    have hlt : subIndex < plains.length :=
      (List.getElem?_eq_some_iff.mp hget).1
    rcases hplains subIndex plain hget with ⟨sub, hread⟩
    exact piece_of_read hsound (hlt.trans hcount) hread
  cases hchunk : readChunk setting.source setting.manifest index with
  | none =>
      have hnil : plains = [] := by
        by_contra hne
        have hpos : 0 < plains.length := List.length_pos_iff.mpr hne
        rcases hpiece 0 _ (List.getElem?_eq_getElem hpos) with
          ⟨chunk, hread, _⟩
        rw [hchunk] at hread
        contradiction
      subst hnil
      exact ⟨hlength, by simp, Or.inl rfl⟩
  | some chunk =>
      have hsame : ∀ subIndex plain, plains[subIndex]? = some plain →
          subIndex < chunk.length ⌈/⌉ maxPlain ∧
            plain = (chunk.drop (subIndex * maxPlain)).take maxPlain := by
        intro subIndex plain hget
        rcases hpiece subIndex plain hget with ⟨other, hread, hfacts⟩
        rw [hchunk, Option.some.injEq] at hread
        subst hread
        exact hfacts
      have hle : plains.length ≤ chunk.length ⌈/⌉ maxPlain := by
        by_contra hmore
        have hlast : chunk.length ⌈/⌉ maxPlain < plains.length := by omega
        have hfacts := hsame _ _ (List.getElem?_eq_getElem hlast)
        exact absurd hfacts.1 (lt_irrefl _)
      have htake : plains = (pieces maxPlain chunk).take plains.length := by
        apply List.ext_getElem
        · simp [hle]
        · intro subIndex hleft hright
          have hfacts := hsame _ _ (List.getElem?_eq_getElem hleft)
          have hpieces := getElem?_pieces (List.getElem?_eq_getElem
            (show subIndex < (pieces maxPlain chunk).length by simp; omega))
          rw [hfacts.2, List.getElem_take, hpieces.2]
      have hfront : plains.flatten =
          chunk.take (plains.length * maxPlain) := by
        rw [htake, flatten_take_pieces (by simp [hle])]
        simp [hle]
      have hwhole : plains.flatten = chunk := by
        have hchunkLength := (readChunk_eq_some hchunk).1
        rw [hfront, List.length_take, ← hchunkLength] at hlength
        rw [hfront]
        exact List.take_of_length_le (by omega)
      rw [hwhole]
      exact rightChunk_of_readChunk hchunk

/-! ## The output file -/

theorem offset_add_sizeOf_le {index : ℕ}
    (hindex : index < setting.manifest.chunkCount) :
    setting.manifest.offset index + setting.manifest.sizeOf index ≤
      setting.source.length := by
  rw [setting.source_length]
  exact buildManifest_offset_add_sizeOf_le hindex

theorem holdsChunks_empty {file : Bytes}
    (hlength : file.length ≤ setting.manifest.totalSize) :
    HoldsChunks setting ∅ file where
  length_le := hlength
  agrees := by simp

/-- Writing a right chunk in its place adds it to the chunks the file holds. -/
theorem HoldsChunks.write {chunksDone : Finset ℕ} {file plaintext : Bytes}
    {index : ℕ} (hholds : HoldsChunks setting chunksDone file)
    (hright : RightChunk setting index plaintext) :
    HoldsChunks setting (insert index chunksDone)
      (writeAt file (setting.manifest.offset index) plaintext) where
  length_le := by
    rcases hright.inside with hempty | hinside
    · rw [hempty, writeAt_nil]
      exact hholds.length_le
    · exact length_writeAt_le hholds.length_le hinside
  agrees := by
    intro other hother hcount
    by_cases hold : other ∈ chunksDone
    · have hagrees := hholds.agrees other hold hcount
      exact hagrees.writeAt (offset_add_sizeOf_le hcount) hright.bytes
    · have heq : other = index := by
        rcases Finset.mem_insert.mp hother with heq | hmem
        · exact heq
        · exact absurd hmem hold
      subst heq
      rw [← hright.length]
      exact agrees_writeAt file hright.bytes

/-- A file that holds every chunk is the source. -/
theorem HoldsChunks.eq_source {chunksDone : Finset ℕ} {file : Bytes}
    (hholds : HoldsChunks setting chunksDone file)
    (hall : ∀ index < setting.manifest.chunkCount, index ∈ chunksDone) :
    file = setting.source := by
  have htotal : setting.source.length = setting.manifest.totalSize :=
    setting.source_length
  have hpos : 0 < setting.manifest.chunkSize :=
    chunkSizeFor_pos setting.manifestSource.totalSize
  have hcover : setting.manifest.totalSize ≤
      setting.manifest.chunkCount * setting.manifest.chunkSize :=
    buildManifest_totalSize_le setting.chunkCount_fits
  apply eq_of_agrees
  · intro position _ hposition
    have hcount : position / setting.manifest.chunkSize <
        setting.manifest.chunkCount := by
      rw [Nat.div_lt_iff_lt_mul hpos]
      omega
    have hlow : setting.manifest.offset
        (position / setting.manifest.chunkSize) ≤ position :=
      Nat.div_mul_le_self position setting.manifest.chunkSize
    have hhigh : position < setting.manifest.offset
        (position / setting.manifest.chunkSize) +
          setting.manifest.chunkSize := by
      rw [← FileManifest.offset_succ]
      exact Nat.lt_mul_of_div_lt (Nat.lt_succ_self _) hpos
    have hagrees := hholds.agrees _ (hall _ hcount) hcount
    have hoffset : setting.manifest.offset
        (position / setting.manifest.chunkSize) <
          setting.manifest.totalSize := buildManifest_offset_lt hcount
    have hsize := FileManifest.sizeOf_of_offset_le hoffset.le
    apply hagrees position hlow
    rw [hsize]
    omega
  · rw [htotal]
    exact hholds.length_le

/-! ## Steps of the sender -/

theorem log_of_emitSender {output : SenderOutput}
    (hemit : s.emitSender setting output = some t) :
    ∃ extra nonce,
      t = { s with
        senderLog := s.senderLog ++ extra
        senderNonce := nonce } ∧
      ∀ entry ∈ extra,
        (∃ message, output = .ctrl message ∧
          entry = setting.toReceiver.sealed s.senderNonce
            (setting.msgPack.encode message)) ∨
        ∃ index plaintext, output = .sealChunk index plaintext ∧
          entry ∈ sealedChunk setting.toReceiver index plaintext := by
  cases output with
  | ctrl message =>
      rcases Option.map_eq_some_iff.mp hemit with ⟨_, _, rfl⟩
      refine ⟨_, _, rfl, ?_⟩
      intro entry hentry
      exact Or.inl ⟨message, rfl, List.mem_singleton.mp hentry⟩
  | sealChunk index plaintext =>
      cases hemit
      refine ⟨_, s.senderNonce, rfl, ?_⟩
      intro entry hentry
      exact Or.inr ⟨index, plaintext, rfl, hentry⟩
  | none =>
      cases hemit
      exact ⟨[], s.senderNonce, by simp, by simp⟩
  | frame index plaintext =>
      cases hemit
      exact ⟨[], s.senderNonce, by simp, by simp⟩
  | finish =>
      cases hemit
      exact ⟨[], s.senderNonce, by simp, by simp⟩

theorem sound_stepSender (hlaws : kind.Laws) (hsound : Sound kind setting s)
    {event : SenderEvent}
    (hfile : ∀ file, event.file? = some file → file = setting.source)
    (hheard : ∀ message, event = .received (.ok message) →
      message ∈ s.sent)
    (hstep : s.stepSender kind setting event = some t) :
    Sound kind setting t := by
  rcases Option.bind_eq_some_iff.mp hstep with ⟨⟨sender, output⟩, hsend, hemit⟩
  have hfacts := (hlaws.sender setting.manifest).stepFacts_of_step hsend
  have hread : ∀ index plaintext,
      kind.sender.Available setting.manifest s.sender event index plaintext →
      readChunk setting.source setting.manifest index = some plaintext := by
    intro index plaintext havailable
    rcases havailable with hholds | ⟨file, hevent, hchunk⟩
    · exact hsound.sender.honest index plaintext hholds
    · rw [hfile file hevent] at hchunk
      exact hchunk
  rcases log_of_emitSender hemit with ⟨extra, nonce, rfl, hextra⟩
  have hlogged : ∀ entry ∈ extra, LoggedBySender setting entry := by
    intro entry hentry
    rcases hextra entry hentry with
      ⟨message, houtput, rfl⟩ | ⟨index, plaintext, houtput, hsealed⟩
    · rcases hfacts.ctrl message houtput with ⟨hstart, rfl⟩
      left
      rw [← hsound.sender.nonce hstart]
    · have hseal := (hfacts.sealing index plaintext houtput).1
      exact Or.inr ⟨index, plaintext, hread index plaintext hseal, hsealed⟩
  have hsilent : s.sent = [] → ∀ entry ∈ extra,
      entry.plaintext =
        setting.msgPack.encode (.manifest setting.manifest) := by
    intro hnothing entry hentry
    rcases hextra entry hentry with
      ⟨message, houtput, rfl⟩ | ⟨index, plaintext, houtput, hsealed⟩
    · rcases hfacts.ctrl message houtput with ⟨_, rfl⟩
      rfl
    · have hreplied := (hfacts.sealing index plaintext houtput).2
      exact absurd hnothing (hsound.sender.replied hreplied)
  refine ⟨⟨⟨?_, ?_, ?_, ?_, ?_, ?_⟩, hsound.receiverLog, hsound.finished⟩,
    hsound.closed, hsound.receiver⟩
  · intro index plaintext hholds
    exact hread index plaintext (hfacts.holds index plaintext hholds)
  · intro hstart
    exact absurd hstart hfacts.ne_start
  · intro entry hentry
    rcases List.mem_append.mp hentry with hold | hnew
    · exact hsound.sender.log entry hold
    · exact hlogged entry hnew
  · intro hnothing entry hentry
    rcases List.mem_append.mp hentry with hold | hnew
    · exact hsound.sender.silent hnothing entry hold
    · exact hsilent hnothing entry hnew
  · intro hreplied
    rcases hfacts.replied hreplied with hbefore | ⟨message, hevent⟩
    · exact hsound.sender.replied hbefore
    · exact List.ne_nil_of_mem (hheard message hevent)
  · intro hsaw
    rcases hfacts.sawComplete hsaw with hbefore | hevent
    · exact hsound.sender.sawComplete hbefore
    · exact hheard .complete hevent

/-! ## Steps of the receiver -/

theorem SenderSound.of_subset (hsound : SenderSound kind setting s)
    (hsender : t.sender = s.sender) (hlog : t.senderLog = s.senderLog)
    (hnonce : t.senderNonce = s.senderNonce) (hsent : s.sent ⊆ t.sent) :
    SenderSound kind setting t where
  honest := by
    rw [hsender]
    exact hsound.honest
  nonce := by
    rw [hsender, hnonce]
    exact hsound.nonce
  log := by
    rw [hlog]
    exact hsound.log
  silent := by
    intro hnothing
    rw [hnothing] at hsent
    rw [hlog]
    exact hsound.silent (List.subset_nil.mp hsent)
  replied := by
    rw [hsender]
    intro hreplied hnothing
    rw [hnothing] at hsent
    exact hsound.replied hreplied (List.subset_nil.mp hsent)
  sawComplete := by
    rw [hsender]
    intro hsaw
    exact hsent (hsound.sawComplete hsaw)

/-- The loop sends `Complete` over a file that is the source. -/
theorem LoopSound.eq_source {loop : Loop} {disk : Disk}
    (hloop : LoopSound kind setting disk loop)
    (hpending : (kind.loop.books loop).pending = ∅)
    (hwriting : kind.loop.writing loop = false) :
    disk.file = setting.source ∧ disk.inFlight = none := by
  have hinFlight := hloop.settled hwriting
  have hholds := hloop.holds
  rw [Disk.landed_of_inFlight_eq_none hinFlight] at hholds
  refine ⟨hholds.eq_source ?_, hinFlight⟩
  intro index hindex
  rcases hloop.covers index hindex with hpend | hdone
  · rw [hpending] at hpend
    simp at hpend
  · exact hdone

/-- `Complete` is only ever put out over the finished file, and nothing is
written after it. -/
theorem finished_of_proceed (hlaws : kind.Laws)
    (hsound : Sound kind setting s) {receiver : Receiver Loop}
    {output : ReceiverOutput}
    (hproceed : s.receiver.proceed kind.loop.toReceiveLoop setting.outputDir =
      some (receiver, output)) :
    (output = .ctrl .complete →
        s.disk.file = setting.source ∧ s.disk.inFlight = none) ∧
      (.complete ∈ s.sent → ∀ op, output ≠ .file op) := by
  have hreceiver := hsound.receiver
  have hclosed := hsound.closed
  unfold ReceiverSound at hreceiver
  unfold Closed at hclosed
  cases hstate : s.receiver with
  | setup setup =>
      rw [hstate] at hreceiver hclosed hproceed
      refine ⟨?_, fun hcomplete => (hclosed hcomplete).elim⟩
      intro houtput
      subst houtput
      cases setup with
      | reply manifest state message =>
          have hmessage := hreceiver.2.2.2.2
          simp [Receiver.proceed, Setup.proceed] at hproceed
          exact absurd hproceed.2 hmessage
      | _ => simp [Receiver.proceed, Setup.proceed] at hproceed
  | loop loop =>
      rw [hstate] at hreceiver hclosed hproceed
      rcases hlaws.loop.proceed_cases hreceiver.regular hproceed with
        ⟨next, rfl, hopen, hfacts⟩ | ⟨hdone, rfl, rfl⟩
      · constructor
        · intro houtput
          rcases hfacts.complete (Or.inl houtput) with
            ⟨_, _, hpending, _, hwriting⟩
          exact hreceiver.eq_source hpending hwriting
        · intro hcomplete
          exact absurd (hclosed hcomplete) hopen
      · simp
  | returned books =>
      rw [hstate] at hproceed
      contradiction
  | failed error =>
      rw [hstate] at hproceed
      contradiction

/-- The effect of an output of the receiver, whatever becomes of the receiver
itself. -/
theorem core_emitReceiver (hsound : Sound kind setting s)
    {receiver : Receiver Loop} {output : ReceiverOutput}
    (hcomplete : output = .ctrl .complete →
      s.disk.file = setting.source ∧ s.disk.inFlight = none)
    (hfile : .complete ∈ s.sent → ∀ op, output ≠ .file op)
    (hemit : emitReceiver kind setting { s with receiver } output = some t) :
    CoreSound kind setting t := by
  cases output with
  | none =>
      cases hemit
      exact ⟨hsound.sender.of_subset rfl rfl rfl (List.Subset.refl _),
        hsound.receiverLog, hsound.finished⟩
  | ctrl message =>
      rcases Option.map_eq_some_iff.mp hemit with ⟨_, _, rfl⟩
      refine ⟨hsound.sender.of_subset rfl rfl rfl (List.subset_append_left _ _),
        ?_, ?_⟩
      · intro entry hentry
        rcases List.mem_append.mp hentry with hold | hnew
        · rcases hsound.receiverLog entry hold with ⟨earlier, hsent, hplain⟩
          exact ⟨earlier, List.mem_append_left _ hsent, hplain⟩
        · refine ⟨message, List.mem_append_right _ (by simp), ?_⟩
          rw [List.mem_singleton.mp hnew]
          rfl
      · intro hsent
        rcases List.mem_append.mp hsent with hold | hnew
        · exact hsound.finished hold
        · rw [← List.mem_singleton.mp hnew] at hcomplete
          exact hcomplete rfl
  | file op =>
      cases hemit
      refine ⟨hsound.sender.of_subset rfl rfl rfl (List.Subset.refl _),
        hsound.receiverLog, ?_⟩
      intro hsent
      exact absurd rfl (hfile hsent op)
  | save state =>
      cases hemit
      exact ⟨hsound.sender.of_subset rfl rfl rfl (List.Subset.refl _),
        hsound.receiverLog, hsound.finished⟩
  | delete state =>
      cases hemit
      exact ⟨hsound.sender.of_subset rfl rfl rfl (List.Subset.refl _),
        hsound.receiverLog, hsound.finished⟩

/-- What an output that is no file operation leaves alone. -/
theorem disk_of_emitReceiver {output : ReceiverOutput}
    (hfile : ∀ op, output ≠ .file op)
    (hemit : emitReceiver kind setting s output = some t) :
    t.receiver = s.receiver ∧ t.disk.file = s.disk.file ∧
      t.disk.inFlight = s.disk.inFlight ∧
      ∀ message ∈ t.sent, message ∈ s.sent ∨ output = .ctrl message := by
  cases output with
  | none =>
      cases hemit
      exact ⟨rfl, rfl, rfl, fun message hsent => Or.inl hsent⟩
  | ctrl message =>
      rcases Option.map_eq_some_iff.mp hemit with ⟨_, _, rfl⟩
      refine ⟨rfl, rfl, rfl, ?_⟩
      intro other hsent
      rcases List.mem_append.mp hsent with hold | hnew
      · exact Or.inl hold
      · rw [List.mem_singleton.mp hnew]
        exact Or.inr rfl
  | file op => exact absurd rfl (hfile op)
  | save state =>
      cases hemit
      exact ⟨rfl, rfl, rfl, fun message hsent => Or.inl hsent⟩
  | delete state =>
      cases hemit
      exact ⟨rfl, rfl, rfl, fun message hsent => Or.inl hsent⟩

/-- The receive loop takes one step. -/
theorem sound_loop (hlaws : kind.Laws) (hsound : Sound kind setting s)
    {loop : Loop} (hstate : s.receiver = .loop loop)
    (hfree : s.blocked kind = false) {receiver : Receiver Loop}
    {output : ReceiverOutput}
    (hproceed : kind.loop.proceed loop = some (receiver, output))
    (hemit : emitReceiver kind setting { s with receiver } output = some t) :
    (.complete ∈ t.sent → t.Closed kind) ∧ ReceiverSound kind setting t := by
  have hloop : LoopSound kind setting s.disk loop := by
    have hreceiver := hsound.receiver
    unfold ReceiverSound at hreceiver
    rw [hstate] at hreceiver
    exact hreceiver
  rcases hlaws.loop.proceed_cases hloop.regular hproceed with
    ⟨next, rfl, hopen, hfacts⟩ | ⟨_, rfl, rfl⟩
  · have hquiet : .complete ∉ s.sent := by
      intro hsent
      have hclosed := hsound.closed hsent
      unfold Closed at hclosed
      rw [hstate] at hclosed
      exact hopen hclosed
    have hmanifest := hfacts.manifest.trans hloop.manifest
    have hstateManifest := hfacts.chunkCount.trans hloop.stateManifest
    rcases hfacts.moves with ⟨index, plaintext, hwrites⟩ | hwaits
    · have hinFlight := hloop.settled hwrites.settled
      have hholds := hloop.holds
      rw [Disk.landed_of_inFlight_eq_none hinFlight] at hholds
      have houtput := hwrites.output
      subst houtput
      cases hemit
      refine ⟨fun hsent => absurd hsent hquiet, hfacts.regular, hmanifest,
        hstateManifest, ?_, ?_, ?_, ?_⟩
      · rw [Books.writeOp, Disk.landed_apply_write hinFlight, hwrites.done,
          hloop.manifest]
        exact hholds.write (hloop.held index plaintext hwrites.holding)
      · intro other bytes hheld
        rw [hwrites.holding_next] at hheld
        contradiction
      · intro other hother
        rw [hwrites.pending, hwrites.done]
        by_cases heq : other = index
        · exact Or.inr (Finset.mem_insert.mpr (Or.inl heq))
        · rcases hloop.covers other hother with hpend | hdone
          · exact Or.inl (Finset.mem_erase.mpr ⟨heq, hpend⟩)
          · exact Or.inr (Finset.mem_insert_of_mem hdone)
      · intro hwriting
        rw [hwrites.writing_next] at hwriting
        simp [Books.writeOp, Disk.apply, hwriting, hinFlight]
    · rcases disk_of_emitReceiver hwaits.output hemit with
        ⟨hnext, hdisk, hflight, hsent⟩
      have hlanded : t.disk.landed = s.disk.landed := by
        simp only [Disk.landed, hdisk, hflight]
      constructor
      · intro hcomplete
        rcases hsent _ hcomplete with hold | hnew
        · exact absurd hold hquiet
        · unfold Closed
          rw [hnext]
          exact (hfacts.complete (Or.inl hnew)).2.1
      · unfold ReceiverSound
        rw [hnext]
        refine ⟨hfacts.regular, hmanifest, hstateManifest, ?_, ?_, ?_, ?_⟩
        · rw [hlanded, hwaits.done]
          exact hloop.holds
        · intro index plaintext hheld
          rcases hwaits.holding with hsame | hnone
          · rw [hsame] at hheld
            exact hloop.held index plaintext hheld
          · rw [hnone] at hheld
            contradiction
        · rw [hwaits.pending, hwaits.done]
          exact hloop.covers
        · intro hwriting
          rw [hflight]
          rcases hwaits.writing with hsame | ⟨hjoins, _⟩
          · rw [hsame] at hwriting
            exact hloop.settled hwriting
          · unfold blocked at hfree
            rw [hstate] at hfree
            simpa [hjoins] using hfree
  · cases hemit
    exact ⟨fun _ => trivial, trivial⟩

theorem not_complete_of_setup (hsound : Sound kind setting s)
    {setup : Setup} (hstate : s.receiver = .setup setup) :
    .complete ∉ s.sent := by
  intro hsent
  have hclosed := hsound.closed hsent
  unfold Closed at hclosed
  rw [hstate] at hclosed
  exact hclosed

theorem setupSound_of_receiver (hsound : Sound kind setting s)
    {setup : Setup} (hstate : s.receiver = .setup setup) :
    s.disk.inFlight = none ∧ SetupSound setting s.sent s.disk setup := by
  have hreceiver := hsound.receiver
  unfold ReceiverSound at hreceiver
  rw [hstate] at hreceiver
  exact hreceiver

/-- A receiver enters its loop. -/
theorem loopSound_start (hlaws : kind.Laws) {disk : Disk}
    {state : TransferState} (hinFlight : disk.inFlight = none)
    (hstate : state.manifest = setting.manifest)
    (hholds : HoldsChunks setting state.chunksDone disk.file) :
    LoopSound kind setting disk
      (kind.loop.start (.start setting.outputDir setting.manifest state)) where
  regular := hlaws.loop.start_regular _
  manifest := by
    rw [hlaws.loop.start_books]
    rfl
  stateManifest := by
    rw [hlaws.loop.start_books]
    exact hstate
  holds := by
    rw [hlaws.loop.start_books, Disk.landed_of_inFlight_eq_none hinFlight]
    exact hholds
  held := by
    intro index plaintext hheld
    rw [hlaws.loop.start_holding] at hheld
    contradiction
  covers := by
    intro index hindex
    rw [hlaws.loop.start_books]
    by_cases hdone : index ∈ state.chunksDone
    · exact Or.inr hdone
    · left
      simp only [Books.start, List.mem_toFinset,
        TransferState.mem_missingChunks, hstate]
      exact ⟨hindex, hdone⟩
  settled := fun _ => hinFlight

/-- One step of the receiver before its loop. -/
theorem sound_setup (hlaws : kind.Laws) (hsound : Sound kind setting s)
    {setup : Setup} (hstate : s.receiver = .setup setup)
    {receiver : Receiver Loop} {output : ReceiverOutput}
    (hproceed : Receiver.proceed kind.loop.toReceiveLoop setting.outputDir
      (.setup setup) = some (receiver, output))
    (hemit : emitReceiver kind setting { s with receiver } output = some t) :
    .complete ∉ t.sent ∧ ReceiverSound kind setting t := by
  have hquiet := not_complete_of_setup hsound hstate
  rcases setupSound_of_receiver hsound hstate with ⟨hinFlight, hsetup⟩
  cases setup with
  | acceptBi =>
      cases hproceed
      cases hemit
      exact ⟨hquiet, hinFlight, hsetup⟩
  | recvManifest => contradiction
  | reject => exact hsetup.elim
  | lookup manifest => contradiction
  | createDir manifest =>
      cases hproceed
      cases hemit
      exact ⟨hquiet, hinFlight, hsetup⟩
  | create manifest =>
      cases hproceed
      cases hemit
      exact ⟨hquiet, hinFlight, hsetup, rfl⟩
  | setLen manifest =>
      rcases hsetup with ⟨rfl, hempty⟩
      cases hproceed
      cases hemit
      refine ⟨hquiet, hinFlight, rfl, rfl, holdsChunks_empty ?_, by simp⟩
      simp [Disk.apply]
  | reply manifest state message =>
      rcases hsetup with ⟨rfl, hmanifest, hholds, hmessage⟩
      cases hproceed
      rcases disk_of_emitReceiver (by simp) hemit with
        ⟨hnext, hfile, hflight, hsent⟩
      constructor
      · intro hcomplete
        rcases hsent _ hcomplete with hold | hnew
        · exact hquiet hold
        · simp only [ReceiverOutput.ctrl.injEq] at hnew
          exact hmessage hnew
      · unfold ReceiverSound
        rw [hnext]
        refine ⟨?_, rfl, hmanifest, ?_⟩
        · rw [hflight]
          exact hinFlight
        · rw [hfile]
          exact hholds
  | openFile manifest state =>
      cases hproceed
      cases hemit
      exact ⟨hquiet, hinFlight, hsetup⟩
  | ready manifest state =>
      rcases hsetup with ⟨rfl, hmanifest, hholds⟩
      cases hproceed
      cases hemit
      exact ⟨hquiet, loopSound_start hlaws hinFlight hmanifest hholds⟩
  | failed error => exact hsetup.elim

theorem sound_receiverProceeds (hlaws : kind.Laws)
    (hsound : Sound kind setting s) (hfree : s.blocked kind = false)
    (hstep : s.stepReceiver kind setting .proceed = some t) :
    Sound kind setting t := by
  rcases Option.bind_eq_some_iff.mp hstep with
    ⟨⟨receiver, output⟩, hproceed, hemit⟩
  rcases finished_of_proceed hlaws hsound hproceed with ⟨hcomplete, hfile⟩
  have hcore := core_emitReceiver hsound hcomplete hfile hemit
  cases hstate : s.receiver with
  | setup setup =>
      simp only [Receiver.step, hstate] at hproceed
      rcases sound_setup hlaws hsound hstate hproceed hemit with
        ⟨hquiet, hreceiver⟩
      exact ⟨hcore, fun hsent => absurd hsent hquiet, hreceiver⟩
  | loop loop =>
      simp only [Receiver.step, hstate] at hproceed
      rcases sound_loop hlaws hsound hstate hfree hproceed hemit with
        ⟨hclosed, hreceiver⟩
      exact ⟨hcore, hclosed, hreceiver⟩
  | returned books =>
      simp only [Receiver.step, hstate] at hproceed
      contradiction
  | failed error =>
      simp only [Receiver.step, hstate] at hproceed
      contradiction

theorem emitReceiver_receiver {output : ReceiverOutput}
    (hemit : emitReceiver kind setting s output = some t) :
    t.receiver = s.receiver := by
  cases output with
  | none =>
      cases hemit
      rfl
  | ctrl message =>
      rcases Option.map_eq_some_iff.mp hemit with ⟨_, _, rfl⟩
      rfl
  | file op =>
      cases hemit
      rfl
  | save state =>
      cases hemit
      rfl
  | delete state =>
      cases hemit
      rfl

/-- A receiver that fails is sound, whether or not the await had its effect. -/
theorem sound_receiverFails (hlaws : kind.Laws)
    (hsound : Sound kind setting s) {error : Error} {effect : Bool}
    (hstep : s.stepReceiver kind setting (.fail error effect) = some t) :
    Sound kind setting t := by
  rcases Option.bind_eq_some_iff.mp hstep with ⟨⟨receiver, output⟩, hfail, hemit⟩
  have hfailed : receiver = .failed error := by
    simp only [Receiver.step, Receiver.fail] at hfail
    split at hfail
    · contradiction
    · contradiction
    · split at hfail <;> cases hfail <;> rfl
  have houtput : (output = .ctrl .complete →
        s.disk.file = setting.source ∧ s.disk.inFlight = none) ∧
      (.complete ∈ s.sent → ∀ op, output ≠ .file op) := by
    simp only [Receiver.step, Receiver.fail] at hfail
    split at hfail
    · contradiction
    · contradiction
    · split at hfail
      next proceeded output' hproceed =>
        cases hfail
        exact finished_of_proceed hlaws hsound hproceed
      next =>
        cases hfail
        simp
  have hcore := core_emitReceiver hsound houtput.1 houtput.2 hemit
  have hreceiver : t.receiver = .failed error := by
    rw [emitReceiver_receiver hemit]
    exact hfailed
  refine ⟨hcore, ?_, ?_⟩
  · intro _
    unfold Closed
    rw [hreceiver]
    trivial
  · unfold ReceiverSound
    rw [hreceiver]
    trivial

theorem sound_receiverLooksUp (hsound : Sound kind setting s)
    (hstep : s.stepReceiver kind setting
      (.lookup setting.pathExists s.disk.files) = some t) :
    Sound kind setting t := by
  rcases Option.bind_eq_some_iff.mp hstep with
    ⟨⟨receiver, output⟩, hlookup, hemit⟩
  rcases Option.map_eq_some_iff.mp hlookup with ⟨next, hnext, hresult⟩
  cases hresult
  cases hemit
  unfold Receiver.lookup at hnext
  split at hnext
  next manifest hstate =>
    cases hnext
    have hquiet := not_complete_of_setup hsound hstate
    rcases setupSound_of_receiver hsound hstate with
      ⟨hinFlight, rfl, hresumable⟩
    refine ⟨⟨hsound.sender.of_subset rfl rfl rfl (List.Subset.refl _),
      hsound.receiverLog, hsound.finished⟩, fun hsent => absurd hsent hquiet, ?_⟩
    cases hfound : findResumable setting.pathExists s.disk.files
        setting.manifest setting.outputDir with
    | none => exact ⟨hinFlight, rfl⟩
    | some existing =>
        rcases hresumable existing hfound with ⟨hmanifest, hholds⟩
        exact ⟨hinFlight, rfl, hmanifest, hholds, by simp⟩
  next => contradiction

theorem sound_receiverHears (hlaws : kind.Laws)
    (hsound : Sound kind setting s) {input rest : Bytes}
    {result : Except Error ControlMessage}
    (hrecv : kind.recvCtrl (s.readByReceiver setting) setting.msgPack.decode
      input = some (result, rest))
    (hstep : s.stepReceiver kind setting (.received result) = some t) :
    Sound kind setting t := by
  rcases Option.bind_eq_some_iff.mp hstep with
    ⟨⟨receiver, output⟩, hreceived, hemit⟩
  rcases Option.map_eq_some_iff.mp hreceived with ⟨next, hnext, hresult⟩
  cases hresult
  cases hemit
  unfold Receiver.received at hnext
  split at hnext
  next hstate =>
    cases hnext
    have hquiet := not_complete_of_setup hsound hstate
    rcases setupSound_of_receiver hsound hstate with
      ⟨hinFlight, hsilent, hresumable⟩
    refine ⟨⟨hsound.sender.of_subset rfl rfl rfl (List.Subset.refl _),
      hsound.receiverLog, hsound.finished⟩, fun hsent => absurd hsent hquiet, ?_⟩
    cases result with
    | error error => trivial
    | ok message =>
        have hmanifest := eq_manifest_of_recvCtrl hlaws hsound hsilent hrecv
        subst hmanifest
        exact ⟨hinFlight, rfl, hresumable⟩
  next => contradiction

/-- Whatever bytes arrive as a chunk frame. -/
theorem sound_frame (hlaws : kind.Laws) (hsound : Sound kind setting s)
    {loop : Loop} (hstate : s.receiver = .loop loop) {input : Bytes}
    {receiver : Receiver Loop}
    (hreceive : kind.loop.receive (s.readByReceiver setting)
      setting.msgPack.decode input loop = some receiver) :
    Sound kind setting { s with receiver } := by
  have hloop : LoopSound kind setting s.disk loop := by
    have hreceiver := hsound.receiver
    unfold ReceiverSound at hreceiver
    rw [hstate] at hreceiver
    exact hreceiver
  have hcore : CoreSound kind setting { s with receiver } :=
    ⟨hsound.sender.of_subset rfl rfl rfl (List.Subset.refl _),
      hsound.receiverLog, hsound.finished⟩
  rcases hlaws.loop.receive_cases hloop.regular hreceive with
    ⟨error, rfl⟩ | ⟨next, rfl, hopen, hfacts⟩
  · exact ⟨hcore, fun _ => trivial, trivial⟩
  · have hquiet : .complete ∉ s.sent := by
      intro hsent
      have hclosed := hsound.closed hsent
      unfold Closed at hclosed
      rw [hstate] at hclosed
      exact hopen hclosed
    refine ⟨hcore, fun hsent => absurd hsent hquiet, hfacts.regular,
      hfacts.manifest.trans hloop.manifest, ?_, ?_, ?_, ?_, ?_⟩
    · rw [hfacts.state]
      exact hloop.stateManifest
    · rw [hfacts.state]
      exact hloop.holds
    · intro index plaintext hheld
      rcases hfacts.holding index plaintext hheld with ⟨hlength, hdecrypts⟩
      rw [hloop.manifest] at hlength
      exact rightChunk_of_decrypts hsound hlength hdecrypts
    · rw [hfacts.state, hfacts.pending]
      exact hloop.covers
    · rw [hfacts.writing]
      exact hloop.settled

/-- The write in flight lands. -/
theorem sound_land (hsound : Sound kind setting s) {offset : ℕ}
    {bytes : Bytes} (hflight : s.disk.inFlight = some (offset, bytes)) :
    Sound kind setting
      { s with
        disk.file := writeAt s.disk.file offset bytes
        disk.inFlight := none } := by
  have hquiet : .complete ∉ s.sent := by
    intro hsent
    have hnone := (hsound.finished hsent).2
    rw [hnone] at hflight
    contradiction
  refine ⟨⟨hsound.sender.of_subset rfl rfl rfl (List.Subset.refl _),
    hsound.receiverLog, fun hsent => absurd hsent hquiet⟩,
    fun hsent => absurd hsent hquiet, ?_⟩
  have hreceiver := hsound.receiver
  unfold ReceiverSound at hreceiver ⊢
  cases hstate : s.receiver with
  | setup setup =>
      rw [hstate, hflight] at hreceiver
      simp at hreceiver
  | loop loop =>
      rw [hstate] at hreceiver
      have hholds := hreceiver.holds
      simp only [Disk.landed, hflight] at hholds
      exact ⟨hreceiver.regular, hreceiver.manifest, hreceiver.stateManifest,
        hholds, hreceiver.held, hreceiver.covers, fun _ => rfl⟩
  | returned books => trivial
  | failed error => trivial

/-! ## Runs -/

theorem sound_of_starts (hlaws : kind.Laws) (hstarts : Starts kind setting s) :
    Sound kind setting s where
  sender := by
    have hsender := hlaws.sender setting.manifest
    constructor
    · intro index plaintext hholds
      rw [hstarts.sender] at hholds
      exact absurd hholds (hsender.start_holds index plaintext)
    · intro _
      exact hstarts.senderNonce
    · simp [hstarts.senderLog]
    · simp [hstarts.senderLog]
    · intro hreplied
      rw [hstarts.sender] at hreplied
      exact absurd hreplied hsender.start_not_replied
    · intro hsaw
      rw [hstarts.sender] at hsaw
      exact absurd hsaw hsender.start_not_sawComplete
  receiverLog := by simp [hstarts.receiverLog]
  finished := by simp [hstarts.sent]
  closed := by simp [hstarts.sent]
  receiver := by
    unfold ReceiverSound
    rw [hstarts.receiver]
    refine ⟨hstarts.inFlight, ?_⟩
    rcases hlaws.firstSetup with hfirst | hfirst
    · rw [hfirst]
      exact ⟨hstarts.sent, hstarts.resumable⟩
    · rw [hfirst]
      exact ⟨hstarts.sent, hstarts.resumable⟩

theorem sound_next (hlaws : kind.Laws) (hsound : Sound kind setting s)
    {event : SessionEvent} (hnext : s.next kind setting event = some t) :
    Sound kind setting t := by
  cases event with
  | sender event =>
      simp only [next] at hnext
      split at hnext
      next hlocal =>
        apply sound_stepSender hlaws hsound _ _ hnext
        · intro file hfile
          cases event <;> simp_all [SenderEvent.file?, SenderEvent.isLocal]
        · intro message hevent
          subst hevent
          contradiction
      next => contradiction
  | senderHears input =>
      rcases Option.bind_eq_some_iff.mp hnext with ⟨⟨result, rest⟩, hrecv, hstep⟩
      apply sound_stepSender hlaws hsound _ _ hstep
      · intro file hfile
        contradiction
      · intro message hevent
        cases hevent
        exact mem_sent_of_recvCtrl hlaws hsound hrecv
  | receiverProceeds =>
      simp only [next] at hnext
      split at hnext
      next => contradiction
      next hfree =>
        exact sound_receiverProceeds hlaws hsound (by simpa using hfree) hnext
  | receiverFails error effect =>
      exact sound_receiverFails hlaws hsound hnext
  | receiverLooksUp => exact sound_receiverLooksUp hsound hnext
  | receiverHears input =>
      rcases Option.bind_eq_some_iff.mp hnext with ⟨⟨result, rest⟩, hrecv, hstep⟩
      exact sound_receiverHears hlaws hsound hrecv hstep
  | frame input =>
      simp only [next] at hnext
      split at hnext
      next loop hstate =>
        rcases Option.map_eq_some_iff.mp hnext with ⟨receiver, hreceive, rfl⟩
        exact sound_frame hlaws hsound hstate hreceive
      next => contradiction
  | land =>
      rcases Option.map_eq_some_iff.mp hnext with
        ⟨⟨offset, bytes⟩, hflight, rfl⟩
      exact sound_land hsound hflight

/-- The invariant holds in every state of every run. -/
theorem sound_of_reachable (hlaws : kind.Laws)
    (hreach : (machine kind setting).Reachable s) : Sound kind setting s := by
  apply hreach.invariant
  · intro s₀ hstart
    exact sound_of_starts hlaws hstart
  · intro u event v hu hnext
    exact sound_next hlaws hu hnext

/-- However early a transfer is interrupted in its loop, the file it leaves is
no longer than the source, as `Resumable` asks of it. -/
theorem file_length_le (hlaws : kind.Laws)
    (hreach : (machine kind setting).Reachable s) {loop : Loop}
    (hstate : s.receiver = .loop loop) :
    s.disk.file.length ≤ setting.manifest.totalSize := by
  have hreceiver := (sound_of_reachable hlaws hreach).receiver
  unfold ReceiverSound at hreceiver
  rw [hstate] at hreceiver
  have hlanded := hreceiver.holds.length_le
  unfold Disk.landed at hlanded
  cases hflight : s.disk.inFlight with
  | none =>
      rw [hflight] at hlanded
      exact hlanded
  | some write =>
      rw [hflight] at hlanded
      exact (length_le_length_writeAt _ _ _).trans hlanded

end Session

/-- What a session of either kind promises in a state. -/
structure Session.Delivered {Sender Loop : Type}
    (kind : SessionKind Sender Loop) (setting : Setting)
    (s : Session Sender Loop) : Prop where
  complete : .complete ∈ s.sent → s.disk.file = setting.source
  returnedOk : kind.sender.returnedOk s.sender → .complete ∈ s.sent

theorem Session.delivered_of_reachable {Sender Loop : Type}
    {kind : SessionKind Sender Loop} (hlaws : kind.Laws) {setting : Setting}
    {s : Session Sender Loop} (hreach : (machine kind setting).Reachable s) :
    Delivered kind setting s where
  complete := fun hsent => ((sound_of_reachable hlaws hreach).finished hsent).1
  returnedOk := by
    intro hreturned
    have hsender := hlaws.sender setting.manifest
    exact (sound_of_reachable hlaws hreach).sender.sawComplete
      (hsender.sawComplete_of_returnedOk hreturned)

/-- End-to-end integrity for both kinds of session. -/
theorem hostile_transport_integrity (setting : Setting) :
    (∀ s, (Session.machine directSession setting).Reachable s →
        Session.Delivered directSession setting s) ∧
      ∀ s, (Session.machine relaySession setting).Reachable s →
        Session.Delivered relaySession setting s :=
  ⟨fun _ => Session.delivered_of_reachable directSession_laws,
    fun _ => Session.delivered_of_reachable relaySession_laws⟩

/-! ### A run of each kind

Three bytes are sent over a transport that delivers them. -/

def sampleSetting : Setting where
  toReceiver := lookupNoise
  toSender := lookupNoise
  msgPack := rmpSerde
  manifestSource := sampleSource
  source := [1, 2, 3]
  outputDir := ['d']
  pathExists := fun _ => false
  source_length := rfl
  chunkCount_fits := by decide

def Session.begun {Sender Loop : Type} (kind : SessionKind Sender Loop)
    (file : Bytes) (files : StateFiles) : Session Sender Loop where
  sender := kind.sender.start
  receiver := .setup kind.firstSetup
  senderLog := []
  receiverLog := []
  senderNonce := 0
  receiverNonce := 0
  sent := []
  disk := ⟨file, none, files⟩

theorem Session.begins_begun {Sender Loop : Type}
    (kind : SessionKind Sender Loop) (file : Bytes) (files : StateFiles) :
    Begins kind (begun kind file files) := by
  constructor <;> rfl

def Session.fresh {Sender Loop : Type} (kind : SessionKind Sender Loop) :
    Session Sender Loop :=
  begun kind [] fun _ => .absent

theorem Session.starts_fresh {Sender Loop : Type}
    (kind : SessionKind Sender Loop) :
    (machine kind sampleSetting).start (fresh kind) where
  toBegins := begins_begun kind _ _
  resumable := by
    intro state hfound
    simp [findResumable, sampleSetting] at hfound

def sampleCtrl (nonce : ℕ) (message : ControlMessage) : Bytes :=
  (ctrlBytes lookupNoise rmpSerde nonce message).getD []

def sampleManifest : Bytes :=
  sampleCtrl 0 (.manifest (buildManifest sampleSource))

def sampleFrame : Bytes := (chunkFrame lookupNoise 0 [1, 2, 3]).bytes

def directEvents : List SessionEvent :=
  [.sender .proceed, .receiverProceeds, .receiverHears sampleManifest,
    .receiverLooksUp] ++
  List.replicate 5 .receiverProceeds ++
  [.senderHears (sampleCtrl 0 .manifestAck), .sender .proceed,
    .sender (.read [1, 2, 3]), .sender .proceed, .sender .proceed,
    .receiverProceeds, .frame sampleFrame, .receiverProceeds,
    .receiverProceeds, .receiverProceeds, .land, .receiverProceeds,
    .receiverProceeds, .receiverProceeds,
    .senderHears (sampleCtrl 2 .complete)] ++
  List.replicate 3 (.sender .proceed)

def relayEvents : List SessionEvent :=
  [.sender .proceed, .receiverHears (toBe 1 0 ++ sampleManifest),
    .receiverLooksUp] ++
  List.replicate 6 .receiverProceeds ++
  [.senderHears (toBe 1 0 ++ sampleCtrl 0 .manifestAck), .sender .proceed,
    .sender (.read [1, 2, 3]), .sender .proceed,
    .frame (toBe 1 1 ++ sampleFrame)] ++
  List.replicate 4 .receiverProceeds ++
  [.senderHears (toBe 1 0 ++ sampleCtrl 2 .complete), .sender .proceed]

def directEnd : Option (Session DirectSender DirectLoop) :=
  (Session.machine directSession sampleSetting).runFrom
    (Session.fresh directSession) directEvents

def relayEnd : Option (Session RelaySender RelayLoop) :=
  (Session.machine relaySession sampleSetting).runFrom
    (Session.fresh relaySession) relayEvents

theorem hostile_transport_integrity_sample :
    (∃ s, directEnd = some s ∧ s.sender = .returned 3 ∧
      s.disk.file = [1, 2, 3]) ∧
    ∃ s, relayEnd = some s ∧ s.sender = .returned 3 ∧
      s.disk.file = [1, 2, 3] := by
  have hdirect : directEnd.map Session.sender = some (.returned 3) := by
    decide +kernel
  have hrelay : relayEnd.map Session.sender = some (.returned 3) := by
    decide +kernel
  rcases hostile_transport_integrity sampleSetting with ⟨hdirects, hrelays⟩
  rcases Option.map_eq_some_iff.mp hdirect with ⟨s, hrun, hsender⟩
  rcases Option.map_eq_some_iff.mp hrelay with ⟨t, hrun', hsender'⟩
  constructor
  · have hdelivered := hdirects s
      (Machine.Reachable.of_runFrom (Session.starts_fresh directSession) hrun)
    have hcomplete := hdelivered.returnedOk ⟨3, hsender⟩
    exact ⟨s, hrun, hsender, hdelivered.complete hcomplete⟩
  · have hdelivered := hrelays t
      (Machine.Reachable.of_runFrom (Session.starts_fresh relaySession) hrun')
    have hcomplete := hdelivered.returnedOk ⟨3, hsender'⟩
    exact ⟨t, hrun', hsender', hdelivered.complete hcomplete⟩

/-! ### An output file that is longer than the source

Nothing is missing, so the receiver sends `Complete`; the byte past the end of
the source stays. -/

/-- As `Session.Resumable`, of a file of any length. -/
def Session.HoldsDone (setting : Setting) (disk : Disk) : Prop :=
  ∀ state, findResumable setting.pathExists disk.files setting.manifest
      setting.outputDir = some state →
    state.manifest = setting.manifest ∧
      ∀ index ∈ state.chunksDone, index < setting.manifest.chunkCount →
        Agrees disk.file setting.source (setting.manifest.offset index)
          (setting.manifest.offset index + setting.manifest.sizeOf index)

/-- A bound on the file is all that a start asks for beyond the right bytes in
the chunks that are done. -/
theorem Session.resumable_iff {setting : Setting} {disk : Disk} :
    Resumable setting disk ↔
      HoldsDone setting disk ∧
        ∀ state, findResumable setting.pathExists disk.files setting.manifest
            setting.outputDir = some state →
          disk.file.length ≤ setting.manifest.totalSize := by
  constructor
  · intro hresumable
    constructor
    · intro state hfound
      exact ⟨(hresumable state hfound).1, (hresumable state hfound).2.agrees⟩
    · intro state hfound
      exact (hresumable state hfound).2.length_le
  · rintro ⟨hdone, hlength⟩ state hfound
    exact ⟨(hdone state hfound).1, hlength state hfound, (hdone state hfound).2⟩

def resumedSetting : Setting :=
  { sampleSetting with pathExists := fun _ => true }

def savedSample : TransferState :=
  { TransferState.new (buildManifest sampleSource) ['d', '/', 'a'] with
    chunksDone := {0} }

def longFile : Session RelaySender RelayLoop :=
  Session.begun relaySession [1, 2, 3, 9] (savedSample.save fun _ => .absent)

def resumedEvents : List SessionEvent :=
  [.sender .proceed, .receiverHears (toBe 1 0 ++ sampleManifest),
    .receiverLooksUp] ++
  List.replicate 5 .receiverProceeds ++
  [.senderHears (toBe 1 0 ++ sampleCtrl 0 (.resumeRequest [0])),
    .senderHears (toBe 1 0 ++ sampleCtrl 1 .complete), .sender .proceed]

def resumedEnd : Option (Session RelaySender RelayLoop) :=
  (Session.machine relaySession resumedSetting).runFrom longFile resumedEvents

theorem Session.holdsDone_longFile : HoldsDone resumedSetting longFile.disk := by
  intro state hfound
  have hsaved : savedSample = state := by
    simpa [findResumable, resumedSetting, sampleSetting, longFile, begun,
      TransferState.load, TransferState.save, savedSample, TransferState.new,
      Setting.manifest] using hfound
  subst hsaved
  refine ⟨rfl, ?_⟩
  intro index hindex _ position _ hposition
  have hzero : index = 0 := Finset.mem_singleton.mp hindex
  subst hzero
  have hsize : position < 3 := hposition
  rcases (by omega : position = 0 ∨ position = 1 ∨ position = 2) with
    rfl | rfl | rfl <;> rfl

/-- Both sides return `Ok`, and the output file is not the source. -/
theorem resume_keeps_longer_file :
    Session.Begins relaySession longFile ∧
      Session.HoldsDone resumedSetting longFile.disk ∧
      ∃ s, resumedEnd = some s ∧ .complete ∈ s.sent ∧
        s.sender = .returned 3 ∧ s.disk.file = [1, 2, 3, 9] ∧
        s.disk.file ≠ resumedSetting.source := by
  have hrun : resumedEnd.map (fun s => (s.sent, s.sender, s.disk.file)) =
      some ([.resumeRequest [0], .complete], .returned 3, [1, 2, 3, 9]) := by
    decide +kernel
  rcases Option.map_eq_some_iff.mp hrun with ⟨s, hs, hresult⟩
  rcases Prod.mk.inj hresult with ⟨hsent, hrest⟩
  rcases Prod.mk.inj hrest with ⟨hsender, hfile⟩
  refine ⟨Session.begins_begun _ _ _, Session.holdsDone_longFile, s, hs, ?_,
    hsender, hfile, ?_⟩
  · rw [hsent]
    exact List.mem_cons_of_mem _ (List.mem_singleton_self _)
  · rw [hfile]
    decide

end P2pShare
