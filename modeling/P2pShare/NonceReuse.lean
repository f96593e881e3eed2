import P2pShare.TransitionMachine
import P2pShare.SenderKinds
import P2pShare.ControlCodec

/-!
# The nonces of a sender

Every `write_message` call of one transfer, with the bytes of the source file a
part of each read event.  Two calls with one nonce encrypt one plaintext exactly
if a chunk that is sealed again was read as before.
-/

namespace P2pShare

open ByteStream TransitionMachine

structure SealSetting where
  noise : Noise
  msgPack : MsgPack
  manifestSource : ManifestSource

def SealSetting.manifest (setting : SealSetting) : FileManifest :=
  buildManifest setting.manifestSource

/-- `log` lists the `write_message` calls, `chunks` the chunks that were
sealed. -/
structure SealRun (Sender : Type) where
  sender : Sender
  nonce : ℕ
  log : List Sealed
  chunks : List (ℕ × Bytes)

namespace SealRun

variable {Sender : Type} (kind : SenderKind Sender) (setting : SealSetting)

def emit (s : SealRun Sender) : SenderOutput → Option (SealRun Sender)
  | .ctrl message =>
      let plaintext := setting.msgPack.encode message
      (setting.noise.writeMessage s.nonce plaintext).map fun _ =>
        { s with
          log := s.log ++ [setting.noise.sealed s.nonce plaintext]
          nonce := s.nonce + 1 }
  | .sealChunk index plaintext =>
      some
        { s with
          log := s.log ++ sealedChunk setting.noise index plaintext
          chunks := s.chunks ++ [(index, plaintext)] }
  | .none | .frame _ _ | .finish => some s

def next (s : SealRun Sender) (event : SenderEvent) :
    Option (SealRun Sender) :=
  (kind.step setting.manifest s.sender event).bind fun (sender, output) =>
    emit setting { s with sender } output

structure Starts (s : SealRun Sender) : Prop where
  sender : s.sender = kind.start
  nonce : s.nonce = 0
  log : s.log = []
  chunks : s.chunks = []

def machine : Machine (SealRun Sender) SenderEvent where
  start := Starts kind
  next := next kind setting

/-- No nonce is used for two plaintexts. -/
def NonceDetermines (s : SealRun Sender) : Prop :=
  ∀ entry ∈ s.log, ∀ other ∈ s.log,
    entry.nonce = other.nonce → entry.plaintext = other.plaintext

/-- A chunk that is sealed again has the bytes it had before. -/
def RereadsSame (s : SealRun Sender) (event : SenderEvent) : Prop :=
  ∀ next index plaintext,
    kind.step setting.manifest s.sender event =
        some (next, .sealChunk index plaintext) →
      ∀ earlier, (index, earlier) ∈ s.chunks → plaintext = earlier

structure Logged (s : SealRun Sender) : Prop where
  held : ∀ index plaintext, kind.holds s.sender index plaintext →
    plaintext.length = setting.manifest.sizeOf index
  length : ∀ chunk ∈ s.chunks,
    chunk.2.length = setting.manifest.sizeOf chunk.1
  entries : ∀ entry ∈ s.log,
    (entry.nonce < chunkNonceBase ∧ entry.plaintext =
        setting.msgPack.encode (.manifest setting.manifest)) ∨
      ∃ chunk ∈ s.chunks, entry ∈ sealedChunk setting.noise chunk.1 chunk.2
  sealed : ∀ chunk ∈ s.chunks,
    ∀ entry ∈ sealedChunk setting.noise chunk.1 chunk.2, entry ∈ s.log
  start : s.sender = kind.start → s.nonce = 0

end SealRun

/-! ## The nonces of a chunk -/

theorem length_ceilDiv_lt {source : ManifestSource} {plaintext : Bytes}
    {index : ℕ} (hlength :
      plaintext.length = (buildManifest source).sizeOf index) :
    plaintext.length ⌈/⌉ maxPlain < 2 ^ 16 := by
  have hsize : plaintext.length ≤ 8388608 := by
    rw [hlength]
    exact (FileManifest.sizeOf_le_chunkSize index).trans
      (chunkSizeFor_le source.totalSize)
  have hceil : plaintext.length ⌈/⌉ maxPlain =
      (plaintext.length + 65519 - 1) / 65519 :=
    Nat.ceilDiv_eq_add_pred_div _ _
  rw [hceil]
  omega

theorem chunkNonceBase_le_of_sealedChunk {noise : Noise} {index : ℕ}
    {plaintext : Bytes} {entry : Sealed}
    (hmem : entry ∈ sealedChunk noise index plaintext) :
    chunkNonceBase ≤ entry.nonce := by
  rcases mem_sealedChunk hmem with ⟨sub, _, hnonce, _⟩
  rw [hnonce]
  exact chunkNonceBase_le_chunkNonce index sub

/-- Under one nonce two chunks are one chunk, and the piece is the same. -/
theorem sealedChunk_of_nonce_eq {noise : Noise} {source : ManifestSource}
    {index other : ℕ} {plaintext bytes : Bytes} {entry entry' : Sealed}
    (hlength : plaintext.length = (buildManifest source).sizeOf index)
    (hlength' : bytes.length = (buildManifest source).sizeOf other)
    (hmem : entry ∈ sealedChunk noise index plaintext)
    (hmem' : entry' ∈ sealedChunk noise other bytes)
    (hnonce : entry.nonce = entry'.nonce) :
    index = other ∧
      (plaintext = bytes → entry.plaintext = entry'.plaintext) := by
  rcases mem_sealedChunk hmem with ⟨sub, hsub, hentry, hpiece⟩
  rcases mem_sealedChunk hmem' with ⟨sub', hsub', hentry', hpiece'⟩
  rw [hentry, hentry'] at hnonce
  have hbound := hsub.trans (length_ceilDiv_lt hlength)
  have hbound' := hsub'.trans (length_ceilDiv_lt hlength')
  rcases chunkNonce_inj hbound hbound' hnonce with ⟨rfl, rfl⟩
  refine ⟨rfl, ?_⟩
  rintro rfl
  rw [hpiece, hpiece']

/-- A chunk is known from the plaintexts under its nonces. -/
theorem eq_of_sealedChunk {noise : Noise} {index : ℕ}
    {plaintext bytes : Bytes} (hlength : plaintext.length = bytes.length)
    (hsame : ∀ entry ∈ sealedChunk noise index plaintext,
      ∀ entry' ∈ sealedChunk noise index bytes,
        entry.nonce = entry'.nonce → entry.plaintext = entry'.plaintext) :
    plaintext = bytes := by
  have hcount : (pieces maxPlain plaintext).length =
      (pieces maxPlain bytes).length := by
    rw [length_pieces, length_pieces, hlength]
  have hpieces : pieces maxPlain plaintext = pieces maxPlain bytes := by
    apply List.ext_getElem hcount
    intro sub hsub hsub'
    have hmem : noise.sealed (chunkNonce index sub)
        (pieces maxPlain plaintext)[sub] ∈ sealedChunk noise index plaintext :=
      List.mem_mapIdx.mpr ⟨sub, hsub, rfl⟩
    have hmem' : noise.sealed (chunkNonce index sub)
        (pieces maxPlain bytes)[sub] ∈ sealedChunk noise index bytes :=
      List.mem_mapIdx.mpr ⟨sub, hsub', rfl⟩
    have hplain := hsame _ hmem _ hmem'
    simp only [Noise.sealed, forall_const] at hplain
    exact hplain
  have hpos : 0 < maxPlain := by norm_num [maxPlain]
  calc
    plaintext = (pieces maxPlain plaintext).flatten :=
      (flatten_pieces hpos plaintext).symm
    _ = (pieces maxPlain bytes).flatten := by rw [hpieces]
    _ = bytes := flatten_pieces hpos bytes

/-! ## One step -/

namespace SealRun

variable {Sender : Type} {kind : SenderKind Sender} {setting : SealSetting}
  {s t : SealRun Sender}

/-- The sender moves and seals nothing. -/
theorem Logged.moves {sender : Sender} (hs : s.Logged kind setting)
    (hheld : ∀ index plaintext, kind.holds sender index plaintext →
      plaintext.length = setting.manifest.sizeOf index)
    (hstart : sender ≠ kind.start) :
    ({ s with sender } : SealRun Sender).Logged kind setting where
  held := hheld
  length := hs.length
  entries := hs.entries
  sealed := hs.sealed
  start := fun hsender => absurd hsender hstart

theorem logged_ctrl {sender : Sender}
    (hs : ({ s with sender } : SealRun Sender).Logged kind setting)
    (hnonce : s.nonce = 0) (hstart : sender ≠ kind.start)
    (hemit : emit setting { s with sender } (.ctrl (.manifest setting.manifest)) =
      some t) :
    t.Logged kind setting ∧ (s.NonceDetermines → t.NonceDetermines) := by
  rcases Option.map_eq_some_iff.mp hemit with ⟨_, _, rfl⟩
  refine ⟨?_, ?_⟩
  · constructor
    · exact hs.held
    · exact hs.length
    · intro entry hentry
      rcases List.mem_append.mp hentry with hold | hnew
      · exact hs.entries entry hold
      · rw [List.mem_singleton] at hnew
        subst hnew
        refine Or.inl ⟨?_, rfl⟩
        simp only [Noise.sealed, hnonce]
        norm_num [chunkNonceBase]
    · intro chunk hchunk entry hentry
      exact List.mem_append_left _ (hs.sealed chunk hchunk entry hentry)
    · exact fun hsender => absurd hsender hstart
  · intro hunique
    have hnew : ∀ entry ∈ s.log, entry.nonce = 0 → entry.plaintext =
        setting.msgPack.encode (.manifest setting.manifest) := by
      intro entry hentry hzero
      rcases hs.entries entry hentry with ⟨_, hplain⟩ | ⟨chunk, _, hchunk⟩
      · exact hplain
      · have hbase := chunkNonceBase_le_of_sealedChunk hchunk
        rw [hzero] at hbase
        norm_num [chunkNonceBase] at hbase
    intro entry hentry other hother heq
    rcases List.mem_append.mp hentry with hold | hentry
    · rcases List.mem_append.mp hother with hold' | hother
      · exact hunique entry hold other hold' heq
      · rw [List.mem_singleton] at hother
        subst hother
        simp only [Noise.sealed, hnonce] at heq
        exact hnew entry hold heq
    · rw [List.mem_singleton] at hentry
      subst hentry
      rcases List.mem_append.mp hother with hold' | hother
      · simp only [Noise.sealed, hnonce] at heq
        exact (hnew other hold' heq.symm).symm
      · rw [List.mem_singleton] at hother
        subst hother
        rfl

/-- A chunk is sealed: the nonces still determine the plaintexts exactly if the
chunk was not sealed with other bytes before. -/
theorem logged_sealChunk {sender : Sender} {index : ℕ} {plaintext : Bytes}
    (hs : ({ s with sender } : SealRun Sender).Logged kind setting)
    (hlength : plaintext.length = setting.manifest.sizeOf index)
    (hstart : sender ≠ kind.start)
    (hemit : emit setting { s with sender } (.sealChunk index plaintext) =
      some t) :
    t.Logged kind setting ∧ (s.NonceDetermines → (t.NonceDetermines ↔
      ∀ earlier, (index, earlier) ∈ s.chunks → plaintext = earlier)) := by
  cases hemit
  have hold : ∀ entry ∈ s.log, ∀ fresh ∈
      sealedChunk setting.noise index plaintext, entry.nonce = fresh.nonce →
        ∃ earlier, (index, earlier) ∈ s.chunks ∧
          entry ∈ sealedChunk setting.noise index earlier ∧
            (plaintext = earlier → fresh.plaintext = entry.plaintext) := by
    intro entry hentry fresh hfresh hnonce
    rcases hs.entries entry hentry with ⟨hlow, _⟩ | ⟨⟨other, earlier⟩, hchunk, hmem⟩
    · have hbase := chunkNonceBase_le_of_sealedChunk hfresh
      omega
    · rcases sealedChunk_of_nonce_eq hlength (hs.length _ hchunk) hfresh hmem
        hnonce.symm with ⟨rfl, hsame⟩
      exact ⟨earlier, hchunk, hmem, hsame⟩
  refine ⟨?_, ?_⟩
  · constructor
    · exact hs.held
    · intro chunk hchunk
      rcases List.mem_append.mp hchunk with hchunk | hchunk
      · exact hs.length chunk hchunk
      · rw [List.mem_singleton] at hchunk
        subst hchunk
        exact hlength
    · intro entry hentry
      rcases List.mem_append.mp hentry with hentry | hentry
      · rcases hs.entries entry hentry with hctrl | ⟨chunk, hchunk, hmem⟩
        · exact Or.inl hctrl
        · exact Or.inr ⟨chunk, List.mem_append_left _ hchunk, hmem⟩
      · exact Or.inr ⟨(index, plaintext),
          List.mem_append_right _ (List.mem_singleton_self _), hentry⟩
    · intro chunk hchunk entry hentry
      rcases List.mem_append.mp hchunk with hchunk | hchunk
      · exact List.mem_append_left _ (hs.sealed chunk hchunk entry hentry)
      · rw [List.mem_singleton] at hchunk
        subst hchunk
        exact List.mem_append_right _ hentry
    · exact fun hsender => absurd hsender hstart
  · intro hunique
    constructor
    · intro hnext earlier hearlier
      have hlength' := hs.length _ hearlier
      apply eq_of_sealedChunk (hlength.trans hlength'.symm)
      intro entry hentry entry' hentry' hnonce
      exact hnext entry (List.mem_append_right _ hentry) entry'
        (List.mem_append_left _ (hs.sealed _ hearlier entry' hentry')) hnonce
    · intro hsame entry hentry other hother hnonce
      rcases List.mem_append.mp hentry with hentry | hentry
      · rcases List.mem_append.mp hother with hother | hother
        · exact hunique entry hentry other hother hnonce
        · rcases hold entry hentry other hother hnonce with
            ⟨earlier, hchunk, _, heq⟩
          exact (heq (hsame earlier hchunk)).symm
      · rcases List.mem_append.mp hother with hother | hother
        · rcases hold other hother entry hentry hnonce.symm with
            ⟨earlier, hchunk, _, heq⟩
          exact heq (hsame earlier hchunk)
        · exact (sealedChunk_of_nonce_eq hlength hlength hentry hother
            hnonce).2 rfl

theorem logged_of_next {event : SenderEvent} (hlaws : kind.Laws setting.manifest)
    (hs : s.Logged kind setting) (hnext : next kind setting s event = some t) :
    t.Logged kind setting ∧ (s.NonceDetermines →
      (t.NonceDetermines ↔ s.RereadsSame kind setting event)) := by
  rcases Option.bind_eq_some_iff.mp hnext with
    ⟨⟨sender, output⟩, hstep, hemit⟩
  have hfacts := hlaws.stepFacts_of_step hstep
  have havailable : ∀ index plaintext,
      kind.Available setting.manifest s.sender event index plaintext →
        plaintext.length = setting.manifest.sizeOf index := by
    rintro index plaintext (hholds | ⟨file, _, hread⟩)
    · exact hs.held index plaintext hholds
    · exact (readChunk_eq_some hread).1
  have hmoved : ({ s with sender } : SealRun Sender).Logged kind setting := by
    apply hs.moves
    · intro index plaintext hholds
      exact havailable index plaintext (hfacts.holds index plaintext hholds)
    · exact hfacts.ne_start
  have hquiet : (∀ index plaintext, output ≠ .sealChunk index plaintext) →
      s.RereadsSame kind setting event := by
    intro hnot next' index plaintext hsealing
    rw [hstep] at hsealing
    cases hsealing
    exact absurd rfl (hnot index plaintext)
  cases output with
  | ctrl message =>
      rcases hfacts.ctrl message rfl with ⟨hstart, rfl⟩
      have hctrl := logged_ctrl hmoved (hs.start hstart) hfacts.ne_start hemit
      refine ⟨hctrl.1, fun hunique => iff_of_true (hctrl.2 hunique) ?_⟩
      exact hquiet (by simp)
  | sealChunk index plaintext =>
      have hlength := havailable index plaintext
        (hfacts.sealing index plaintext rfl).1
      have hsealed := logged_sealChunk hmoved hlength hfacts.ne_start hemit
      refine ⟨hsealed.1, fun hunique => (hsealed.2 hunique).trans ?_⟩
      constructor
      · intro hsame next' index' plaintext' hsealing
        rw [hstep] at hsealing
        cases hsealing
        exact hsame
      · intro hreread
        exact hreread sender index plaintext hstep
  | none =>
      cases hemit
      exact ⟨hmoved, fun hunique => iff_of_true hunique (hquiet (by simp))⟩
  | frame index plaintext =>
      cases hemit
      exact ⟨hmoved, fun hunique => iff_of_true hunique (hquiet (by simp))⟩
  | finish =>
      cases hemit
      exact ⟨hmoved, fun hunique => iff_of_true hunique (hquiet (by simp))⟩

theorem logged_of_starts (hlaws : kind.Laws setting.manifest)
    (hstart : Starts kind s) : s.Logged kind setting := by
  constructor
  · intro index plaintext hholds
    rw [hstart.sender] at hholds
    exact absurd hholds (hlaws.start_holds index plaintext)
  · intro chunk hchunk
    rw [hstart.chunks] at hchunk
    contradiction
  · intro entry hentry
    rw [hstart.log] at hentry
    contradiction
  · intro chunk hchunk
    rw [hstart.chunks] at hchunk
    contradiction
  · exact fun _ => hstart.nonce

theorem nonceDetermines_iff (hlaws : kind.Laws setting.manifest)
    {history : List (SealRun Sender × SenderEvent)}
    (hexec : (machine kind setting).Execution history s) :
    Machine.Throughout NonceDetermines history s ↔
      ∀ entry ∈ history, entry.1.RereadsSame kind setting entry.2 := by
  apply hexec.throughout_iff
  · intro s₀ hstart entry hentry
    rw [hstart.log] at hentry
    contradiction
  · intro u event v hreach hunique hnext
    have hlogged : u.Logged kind setting := by
      apply hreach.invariant
      · exact fun _ hstart => logged_of_starts hlaws hstart
      · exact fun _ _ _ hs hstep => (logged_of_next hlaws hs hstep).1
    exact (logged_of_next hlaws hlogged hnext).2 hunique

end SealRun

/-- Along a transfer of either sender no nonce is used for two plaintexts
exactly if a chunk that is sealed again is read as before. -/
theorem nonce_plaintext_unique_iff (setting : SealSetting) :
    (∀ history s,
      (SealRun.machine directSenderKind setting).Execution history s →
        (Machine.Throughout SealRun.NonceDetermines history s ↔
          ∀ entry ∈ history,
            entry.1.RereadsSame directSenderKind setting entry.2)) ∧
      ∀ history s,
        (SealRun.machine relaySenderKind setting).Execution history s →
          (Machine.Throughout SealRun.NonceDetermines history s ↔
            ∀ entry ∈ history,
              entry.1.RereadsSame relaySenderKind setting entry.2) :=
  ⟨fun _ _ hexec =>
      SealRun.nonceDetermines_iff (directSenderKind_laws _) hexec,
    fun _ _ hexec =>
      SealRun.nonceDetermines_iff (relaySenderKind_laws _) hexec⟩

/-! ## The file changes between two reads -/

def sealSample : SealSetting where
  noise := lookupNoise
  msgPack := rmpSerde
  manifestSource := sampleSource

def SealRun.fresh {Sender : Type} (kind : SenderKind Sender) :
    SealRun Sender where
  sender := kind.start
  nonce := 0
  log := []
  chunks := []

theorem SealRun.starts_fresh {Sender : Type} (kind : SenderKind Sender) :
    Starts kind (fresh kind) where
  sender := rfl
  nonce := rfl
  log := rfl
  chunks := rfl

/-- The last byte of the file changes before the peer asks for the chunk
again. -/
def changedFile : Option (SealRun DirectSender) :=
  (SealRun.machine directSenderKind sealSample).runFrom
    (SealRun.fresh directSenderKind)
    [.proceed, .received (.ok .manifestAck), .proceed, .read [1, 2, 3],
      .proceed, .proceed, .received (.ok (.chunkNack 0)), .proceed,
      .read [1, 2, 4]]

theorem changedFile_log :
    ∃ s, changedFile = some s ∧
      ⟨chunkNonce 0 0, [1, 2, 3], [1, 2, 3] ++ List.replicate 16 0⟩ ∈ s.log ∧
      ⟨chunkNonce 0 0, [1, 2, 4], [1, 2, 4] ++ List.replicate 16 0⟩ ∈ s.log := by
  have hrun : changedFile.map (fun s => s.log.drop 1) =
      some [⟨chunkNonce 0 0, [1, 2, 3], [1, 2, 3] ++ List.replicate 16 0⟩,
        ⟨chunkNonce 0 0, [1, 2, 4], [1, 2, 4] ++ List.replicate 16 0⟩] := by
    decide +kernel
  rcases Option.map_eq_some_iff.mp hrun with ⟨s, hs, hlog⟩
  refine ⟨s, hs, ?_, ?_⟩
  · apply List.mem_of_mem_drop
    rw [hlog]
    exact List.mem_cons_self
  · apply List.mem_of_mem_drop
    rw [hlog]
    exact List.mem_cons_of_mem _ List.mem_cons_self

theorem changedFile_not_determines :
    ∃ s, changedFile = some s ∧ ¬ s.NonceDetermines := by
  rcases changedFile_log with ⟨s, hs, hfirst, hsecond⟩
  refine ⟨s, hs, fun hunique => ?_⟩
  have hsame := hunique _ hfirst _ hsecond rfl
  exact absurd hsame (by decide)

theorem nonce_plaintext_unique_sample :
    ∃ history s,
      (SealRun.machine directSenderKind sealSample).Execution history s ∧
        changedFile = some s ∧ ¬ ∀ entry ∈ history,
          entry.1.RereadsSame directSenderKind sealSample entry.2 := by
  rcases changedFile_not_determines with ⟨s, hs, hnot⟩
  have hreach := Machine.Reachable.of_runFrom
    (SealRun.starts_fresh directSenderKind) hs
  rcases hreach.execution with ⟨history, hexec⟩
  have hexact := (nonce_plaintext_unique_iff sealSample).1 history s hexec
  exact ⟨history, s, hexec, hs, fun hsame => hnot (hexact.mpr hsame).1⟩

theorem retransmit_reuses_nonce :
    ∃ s, (SealRun.machine directSenderKind sealSample).Reachable s ∧
      ¬ s.NonceDetermines := by
  rcases changedFile_not_determines with ⟨s, hs, hnot⟩
  exact ⟨s, Machine.Reachable.of_runFrom
    (SealRun.starts_fresh directSenderKind) hs, hnot⟩

end P2pShare
