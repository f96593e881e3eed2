import P2pShare.TransitionMachine
import P2pShare.ControlCodec

/-!
# Control messages over a hostile transport

One direction of a session: what one peer passes to `send_ctrl` and
`encrypt_chunk`, and what the other accepts from frames of any bytes.  The nonce
of a control frame is read from the wire, so a frame chooses the message it
stands for; the messages come in order exactly as far as the frames do.
-/

namespace P2pShare

open ByteStream TransitionMachine

/-- `PeerSession::recv_ctrl` or the control case of `RelaySession::recv_msg`,
with the place of the nonce in the frame. -/
structure CtrlReader where
  accepts : (ℕ → Bytes → Option Bytes) → (Bytes → Option ControlMessage) →
    Bytes → Option ControlMessage
  nonceOf : Bytes → Option ℕ

def wireNonce (input : Bytes) : Option ℕ := (readBe 8 input).map Prod.fst

def directReader : CtrlReader where
  accepts := fun read decode input =>
    match recvCtrl read decode input with
    | some (.ok message, _) => some message
    | _ => none
  nonceOf := wireNonce

def relayReader : CtrlReader where
  accepts := fun read decode input =>
    match recvMsg read decode input with
    | some (.ok (.ctrl message), _) => some message
    | _ => none
  nonceOf := fun input => (readBe 1 input).bind fun (_, rest) => wireNonce rest

structure ReplaySetting where
  noise : Noise
  msgPack : MsgPack

/-- `sent` lists the messages passed to `send_ctrl`, `chunks` the chunks passed
to `encrypt_chunk`, and `accepted` the messages accepted, each with the nonce of
its frame. -/
structure ReplayRun where
  sent : List ControlMessage
  chunks : List (ℕ × Bytes)
  log : List Sealed
  accepted : List (ℕ × ControlMessage)

inductive ReplayEvent where
  | sendCtrl (message : ControlMessage)
  | encryptChunk (index : ℕ) (plaintext : Bytes)
  | frame (input : Bytes)

namespace ReplayRun

variable (reader : CtrlReader) (setting : ReplaySetting)

/-- The nonce of `send_ctrl` counts its calls, also those that fail. -/
def send (s : ReplayRun) (message : ControlMessage) : ReplayRun :=
  let plaintext := setting.msgPack.encode message
  match setting.noise.writeMessage s.sent.length plaintext with
  | some _ =>
      { s with
        sent := s.sent ++ [message]
        log := s.log ++ [setting.noise.sealed s.sent.length plaintext] }
  | none => { s with sent := s.sent ++ [message] }

def next (s : ReplayRun) : ReplayEvent → Option ReplayRun
  | .sendCtrl message => some (s.send setting message)
  | .encryptChunk index plaintext =>
      some
        { s with
          chunks := s.chunks ++ [(index, plaintext)]
          log := s.log ++ sealedChunk setting.noise index plaintext }
  | .frame input =>
      match reader.nonceOf input,
          reader.accepts (setting.noise.readMessage s.log)
            setting.msgPack.decode input with
      | some nonce, some message =>
          some { s with accepted := s.accepted ++ [(nonce, message)] }
      | _, _ => some s

structure Starts (s : ReplayRun) : Prop where
  sent : s.sent = []
  chunks : s.chunks = []
  log : s.log = []
  accepted : s.accepted = []

def machine : Machine ReplayRun ReplayEvent where
  start := Starts
  next := next reader setting

/-- The messages accepted are messages sent, in order and without repetition. -/
def AcceptsAsSent (s : ReplayRun) : Prop :=
  (s.accepted.map Prod.snd).Sublist s.sent

/-- The message is a piece of a chunk that was sealed under the nonce. -/
def FromChunk (s : ReplayRun) (nonce : ℕ) (message : ControlMessage) : Prop :=
  ∃ chunk ∈ s.chunks, ∃ entry ∈ sealedChunk setting.noise chunk.1 chunk.2,
    entry.nonce = nonce ∧ setting.msgPack.decode entry.plaintext = some message

/-- A frame with a control nonce stands for the message sent under that nonce,
another frame for such a message or for a piece of a chunk. -/
structure AcceptsSealed (s : ReplayRun) : Prop where
  control : ∀ entry ∈ s.accepted, entry.1 < chunkNonceBase →
    s.sent[entry.1]? = some entry.2
  other : ∀ entry ∈ s.accepted,
    s.sent[entry.1]? = some entry.2 ∨ s.FromChunk setting entry.1 entry.2
  ordered : (∀ entry ∈ s.accepted, entry.1 < chunkNonceBase) →
    (s.accepted.map Prod.fst).Pairwise (· < ·) → s.AcceptsAsSent

end ReplayRun

/-! ## What a reader accepts -/

structure CtrlReader.Laws (reader : CtrlReader) : Prop where
  accepted : ∀ {read decode input nonce message},
    reader.nonceOf input = some nonce →
      reader.accepts read decode input = some message →
        ∃ ciphertext plaintext, read nonce ciphertext = some plaintext ∧
          decode plaintext = some message

theorem recvCtrl_wireNonce {read : ℕ → Bytes → Option Bytes}
    {decode : Bytes → Option ControlMessage} {input rest : Bytes} {nonce : ℕ}
    {message : ControlMessage} (hnonce : wireNonce input = some nonce)
    (hrecv : recvCtrl read decode input = some (.ok message, rest)) :
    ∃ ciphertext plaintext, read nonce ciphertext = some plaintext ∧
      decode plaintext = some message := by
  rcases Option.map_eq_some_iff.mp hnonce with ⟨⟨nonce', body⟩, hread, rfl⟩
  unfold recvCtrl at hrecv
  rw [hread, Option.bind_some] at hrecv
  rcases Option.bind_eq_some_iff.mp hrecv with ⟨⟨length, body'⟩, _, hbody⟩
  rcases Option.map_eq_some_iff.mp hbody with ⟨⟨ciphertext, rest'⟩, _, hresult⟩
  cases hplain : read nonce' ciphertext with
  | none => simp [hplain] at hresult
  | some plaintext =>
      cases hdecode : decode plaintext with
      | none => simp [hplain, hdecode] at hresult
      | some decoded =>
          simp only [hplain, hdecode, Prod.mk.injEq, Except.ok.injEq] at hresult
          refine ⟨ciphertext, plaintext, hplain, ?_⟩
          rw [hdecode, hresult.1]

theorem directReader_laws : directReader.Laws where
  accepted := by
    intro read decode input nonce message hnonce haccepts
    simp only [directReader] at haccepts
    split at haccepts
    next message' rest hrecv =>
      cases haccepts
      exact recvCtrl_wireNonce hnonce hrecv
    next => contradiction

theorem relayReader_laws : relayReader.Laws where
  accepted := by
    intro read decode input nonce message hnonce haccepts
    simp only [relayReader] at haccepts
    split at haccepts
    next message' rest hrecv =>
      cases haccepts
      rcases Option.bind_eq_some_iff.mp hnonce with
        ⟨⟨type, body⟩, htype, hnonce⟩
      unfold recvMsg at hrecv
      rw [htype, Option.bind_some] at hrecv
      simp only at hrecv
      split at hrecv
      next =>
        rcases Option.map_eq_some_iff.mp hrecv with
          ⟨⟨result, rest'⟩, hctrl, hresult⟩
        cases result with
        | error error => simp [Except.map] at hresult
        | ok decoded =>
            simp only [Except.map, Prod.mk.injEq, Except.ok.injEq,
              RelayMsg.ctrl.injEq] at hresult
            rw [hresult.1] at hctrl
            exact recvCtrl_wireNonce hnonce hctrl
      next =>
        split at hrecv
        next => simp [Option.bind_eq_some_iff] at hrecv
        next => simp at hrecv
    next => contradiction

/-! ## The invariant -/

namespace ReplayRun

variable {reader : CtrlReader} {setting : ReplaySetting} {s t : ReplayRun}

variable (setting) in
/-- What the log holds under a nonce. -/
structure Logged (s : ReplayRun) : Prop where
  log : ∀ entry ∈ s.log,
    (∃ message, s.sent[entry.nonce]? = some message ∧
        entry.plaintext = setting.msgPack.encode message) ∨
      ∃ chunk ∈ s.chunks, entry ∈ sealedChunk setting.noise chunk.1 chunk.2
  accepted : ∀ entry ∈ s.accepted,
    s.sent[entry.1]? = some entry.2 ∨ s.FromChunk setting entry.1 entry.2

theorem getElem?_of_initial {early late : List ControlMessage} {nonce : ℕ}
    {message : ControlMessage} (hinitial : early <+: late)
    (hmessage : early[nonce]? = some message) :
    late[nonce]? = some message := by
  rcases hinitial with ⟨rest, rfl⟩
  rw [List.getElem?_append_left (List.getElem?_eq_some_iff.mp hmessage).1]
  exact hmessage

theorem FromChunk.grow {nonce : ℕ} {message : ControlMessage}
    (hfrom : s.FromChunk setting nonce message)
    (hchunks : ∀ chunk ∈ s.chunks, chunk ∈ t.chunks) :
    t.FromChunk setting nonce message := by
  rcases hfrom with ⟨chunk, hchunk, hentry⟩
  exact ⟨chunk, hchunks chunk hchunk, hentry⟩

/-- The peer has sent or sealed more. -/
theorem Logged.grow {fresh : List Sealed} (hs : s.Logged setting)
    (hsent : s.sent <+: t.sent)
    (hchunks : ∀ chunk ∈ s.chunks, chunk ∈ t.chunks)
    (hlog : t.log = s.log ++ fresh) (haccepted : t.accepted = s.accepted)
    (hfresh : ∀ entry ∈ fresh,
      (∃ message, t.sent[entry.nonce]? = some message ∧
          entry.plaintext = setting.msgPack.encode message) ∨
        ∃ chunk ∈ t.chunks, entry ∈ sealedChunk setting.noise chunk.1 chunk.2) :
    t.Logged setting := by
  constructor
  · intro entry hentry
    rw [hlog] at hentry
    rcases List.mem_append.mp hentry with hold | hnew
    · rcases hs.log entry hold with
        ⟨message, hmessage, hplain⟩ | ⟨chunk, hchunk, hmem⟩
      · exact Or.inl ⟨message, getElem?_of_initial hsent hmessage, hplain⟩
      · exact Or.inr ⟨chunk, hchunks chunk hchunk, hmem⟩
    · exact hfresh entry hnew
  · intro entry hentry
    rw [haccepted] at hentry
    rcases hs.accepted entry hentry with hmessage | hfrom
    · exact Or.inl (getElem?_of_initial hsent hmessage)
    · exact Or.inr (hfrom.grow hchunks)

theorem logged_send (hs : s.Logged setting) (message : ControlMessage) :
    (s.send setting message).Logged setting := by
  unfold send
  simp only
  split
  · apply hs.grow
    · exact List.prefix_append _ _
    · exact fun chunk hchunk => hchunk
    · rfl
    · rfl
    · intro entry hentry
      rw [List.mem_singleton] at hentry
      subst hentry
      refine Or.inl ⟨message, ?_, rfl⟩
      exact List.getElem?_concat_length
  · apply hs.grow
    · exact List.prefix_append _ _
    · exact fun chunk hchunk => hchunk
    · exact (List.append_nil _).symm
    · rfl
    · intro entry hentry
      contradiction

theorem logged_frame {input : Bytes} (hlaws : reader.Laws)
    (hs : s.Logged setting)
    (hnext : next reader setting s (.frame input) = some t) :
    t.Logged setting := by
  simp only [next] at hnext
  split at hnext
  next nonce message hnonce haccepts =>
    cases hnext
    rcases hlaws.accepted hnonce haccepts with
      ⟨ciphertext, plaintext, hread, hdecode⟩
    have hmem := setting.noise.authentic s.log nonce ciphertext plaintext hread
    refine ⟨hs.log, ?_⟩
    intro entry hentry
    rcases List.mem_append.mp hentry with hold | hnew
    · exact hs.accepted entry hold
    · rw [List.mem_singleton] at hnew
      subst hnew
      rcases hs.log _ hmem with ⟨sent, hsent, hplain⟩ | ⟨chunk, hchunk, hchunkMem⟩
      · have hsame : sent = message := by
          simp only at hplain
          rw [hplain, setting.msgPack.decode_encode] at hdecode
          exact Option.some.inj hdecode
        subst hsame
        exact Or.inl hsent
      · exact Or.inr ⟨chunk, hchunk, _, hchunkMem, rfl, hdecode⟩
  next =>
    cases hnext
    exact hs

theorem logged_next {event : ReplayEvent} (hlaws : reader.Laws)
    (hs : s.Logged setting) (hnext : next reader setting s event = some t) :
    t.Logged setting := by
  cases event with
  | sendCtrl message =>
      cases hnext
      exact logged_send hs message
  | encryptChunk index plaintext =>
      cases hnext
      apply hs.grow
      · exact List.prefix_rfl
      · exact fun chunk hchunk => List.mem_append_left _ hchunk
      · rfl
      · rfl
      · intro entry hentry
        exact Or.inr ⟨(index, plaintext),
          List.mem_append_right _ (List.mem_singleton_self _), hentry⟩
  | frame input => exact logged_frame hlaws hs hnext

theorem logged_of_reachable (hlaws : reader.Laws)
    (hreach : (machine reader setting).Reachable s) : s.Logged setting := by
  apply hreach.invariant
  · intro s₀ hstart
    constructor
    · intro entry hentry
      rw [hstart.log] at hentry
      contradiction
    · intro entry hentry
      rw [hstart.accepted] at hentry
      contradiction
  · exact fun _ _ _ hs hnext => logged_next hlaws hs hnext

theorem not_fromChunk {nonce : ℕ} {message : ControlMessage}
    (hnonce : nonce < chunkNonceBase) : ¬ s.FromChunk setting nonce message := by
  rintro ⟨chunk, _, entry, hentry, rfl, _⟩
  rcases mem_sealedChunk hentry with ⟨sub, _, heq, _⟩
  have hbase := chunkNonceBase_le_chunkNonce chunk.1 sub
  omega

/-- Entries at increasing positions form a sublist. -/
theorem sublist_of_increasing {α : Type} {entries : List (ℕ × α)} {list : List α}
    (hentries : ∀ entry ∈ entries, list[entry.1]? = some entry.2)
    (hsorted : (entries.map Prod.fst).Pairwise (· < ·)) :
    (entries.map Prod.snd).Sublist list := by
  induction list generalizing entries with
  | nil =>
      cases entries with
      | nil => exact List.Sublist.refl _
      | cons entry rest =>
          have hentry := hentries entry List.mem_cons_self
          contradiction
  | cons head tail ih =>
      have hshift : ∀ later : List (ℕ × α),
          (∀ entry ∈ later, 0 < entry.1 ∧
            (head :: tail)[entry.1]? = some entry.2) →
          (later.map Prod.fst).Pairwise (· < ·) →
            (later.map Prod.snd).Sublist tail := by
        intro later hlater hpairs
        have hmap : (later.map fun entry => (entry.1 - 1, entry.2)).map
            Prod.snd = later.map Prod.snd := by
          simp
        rw [← hmap]
        apply ih
        · intro entry hentry
          rcases List.mem_map.mp hentry with ⟨old, hold, rfl⟩
          rcases hlater old hold with ⟨hpos, hvalue⟩
          rw [← hvalue]
          obtain ⟨position, hposition⟩ := Nat.exists_eq_succ_of_ne_zero hpos.ne'
          rw [hposition]
          rfl
        · rw [List.map_map, List.pairwise_map]
          rw [List.pairwise_map] at hpairs
          apply hpairs.imp_of_mem
          intro left right hleft hright hlt
          have hpos := (hlater left hleft).1
          simp only [Function.comp_apply]
          omega
      cases entries with
      | nil => exact List.nil_sublist _
      | cons entry rest =>
          rw [List.map_cons, List.pairwise_cons] at hsorted
          have hrest : ∀ other ∈ rest, entry.1 < other.1 := fun other hother =>
            hsorted.1 other.1 (List.mem_map_of_mem hother)
          by_cases hzero : entry.1 = 0
          · have hhead : head = entry.2 := by
              have hentry := hentries entry List.mem_cons_self
              rw [hzero] at hentry
              exact Option.some.inj hentry
            rw [List.map_cons, ← hhead]
            apply List.Sublist.cons_cons
            apply hshift rest
            · intro other hother
              exact ⟨by have := hrest other hother; omega,
                hentries other (List.mem_cons_of_mem _ hother)⟩
            · exact hsorted.2
          · apply List.Sublist.cons
            apply hshift (entry :: rest)
            · intro other hother
              refine ⟨?_, hentries other hother⟩
              rcases List.mem_cons.mp hother with rfl | hother
              · exact Nat.pos_of_ne_zero hzero
              · have hlt := hrest other hother
                omega
            · rw [List.map_cons, List.pairwise_cons]
              exact hsorted

theorem acceptsSealed_of_reachable (hlaws : reader.Laws)
    (hreach : (machine reader setting).Reachable s) :
    s.AcceptsSealed setting := by
  have hlogged := logged_of_reachable hlaws hreach
  have hcontrol : ∀ entry ∈ s.accepted, entry.1 < chunkNonceBase →
      s.sent[entry.1]? = some entry.2 := by
    intro entry hentry hlow
    rcases hlogged.accepted entry hentry with hsent | hfrom
    · exact hsent
    · exact absurd hfrom (not_fromChunk hlow)
  constructor
  · exact hcontrol
  · exact hlogged.accepted
  · intro hlow hsorted
    apply sublist_of_increasing
    · exact fun entry hentry => hcontrol entry hentry (hlow entry hentry)
    · exact hsorted

end ReplayRun

/-- A control message is accepted only for a plaintext the peer sealed under the
nonce of the frame. -/
theorem control_messages_accepted_as_sealed (setting : ReplaySetting) :
    (∀ s, (ReplayRun.machine directReader setting).Reachable s →
        s.AcceptsSealed setting) ∧
      ∀ s, (ReplayRun.machine relayReader setting).Reachable s →
        s.AcceptsSealed setting :=
  ⟨fun _ hreach => ReplayRun.acceptsSealed_of_reachable directReader_laws hreach,
    fun _ hreach => ReplayRun.acceptsSealed_of_reachable relayReader_laws hreach⟩

/-! ## Frames that were not sent -/

def replaySample : ReplaySetting := ⟨lookupNoise, rmpSerde⟩

def ReplayRun.fresh : ReplayRun := ⟨[], [], [], []⟩

theorem ReplayRun.starts_fresh : Starts fresh := ⟨rfl, rfl, rfl, rfl⟩

/-- A control frame of the direct session with this nonce and plaintext. -/
def ctrlFrame (nonce : ℕ) (plaintext : Bytes) : Bytes :=
  toBe 8 nonce ++ toBe 4 (plaintext.length + 16) ++
    lookupNoise.cipher nonce plaintext

/-- The bytes of the file read as the message `Complete`. -/
def chunkAsControl : Option ReplayRun :=
  (ReplayRun.machine directReader replaySample).runFrom ReplayRun.fresh
    [.encryptChunk 0 (rmpSerde.encode .complete),
      .frame (ctrlFrame (chunkNonce 0 0) (rmpSerde.encode .complete))]

/-- The frame of `Progress` is delivered, and a second time after a later
message. -/
def replayedProgress : Option ReplayRun :=
  (ReplayRun.machine relayReader replaySample).runFrom ReplayRun.fresh
    [.sendCtrl (.progress 3), .sendCtrl .complete,
      .frame (0 :: ctrlFrame 0 (rmpSerde.encode (.progress 3))),
      .frame (0 :: ctrlFrame 0 (rmpSerde.encode (.progress 3)))]

theorem control_messages_accepted_sample :
    ∃ s, replayedProgress = some s ∧
      s.accepted = [(0, .progress 3), (0, .progress 3)] ∧
      s.AcceptsSealed replaySample := by
  have hrun : replayedProgress.map ReplayRun.accepted =
      some [(0, .progress 3), (0, .progress 3)] := by
    decide +kernel
  rcases Option.map_eq_some_iff.mp hrun with ⟨s, hs, haccepted⟩
  have hreach := Machine.Reachable.of_runFrom ReplayRun.starts_fresh hs
  exact ⟨s, hs, haccepted,
    (control_messages_accepted_as_sealed replaySample).2 s hreach⟩

/-- A message that was never sent is accepted, and one that was sent once is
accepted twice. -/
theorem control_messages_accepted_unsent :
    (∃ s, (ReplayRun.machine directReader replaySample).Reachable s ∧
        s.sent = [] ∧ s.accepted = [(chunkNonce 0 0, .complete)] ∧
        ¬ s.AcceptsAsSent) ∧
      ∃ s, (ReplayRun.machine relayReader replaySample).Reachable s ∧
        s.sent = [.progress 3, .complete] ∧
        s.accepted = [(0, .progress 3), (0, .progress 3)] ∧
        ¬ s.AcceptsAsSent := by
  have hchunk : chunkAsControl.map (fun s => (s.sent, s.accepted)) =
      some ([], [(chunkNonce 0 0, .complete)]) := by
    decide +kernel
  have hreplay : replayedProgress.map (fun s => (s.sent, s.accepted)) =
      some ([.progress 3, .complete], [(0, .progress 3), (0, .progress 3)]) := by
    decide +kernel
  rcases Option.map_eq_some_iff.mp hchunk with ⟨s, hs, hstate⟩
  rcases Option.map_eq_some_iff.mp hreplay with ⟨t, ht, hstate'⟩
  simp only [Prod.mk.injEq] at hstate hstate'
  rcases hstate with ⟨hsent, haccepted⟩
  rcases hstate' with ⟨hsent', haccepted'⟩
  refine ⟨⟨s, Machine.Reachable.of_runFrom ReplayRun.starts_fresh hs, hsent,
    haccepted, ?_⟩, t, Machine.Reachable.of_runFrom ReplayRun.starts_fresh ht,
    hsent', haccepted', ?_⟩
  · intro hsublist
    rw [ReplayRun.AcceptsAsSent, hsent, haccepted] at hsublist
    exact absurd hsublist (by decide)
  · intro hsublist
    rw [ReplayRun.AcceptsAsSent, hsent', haccepted'] at hsublist
    exact absurd hsublist (by decide)

end P2pShare
