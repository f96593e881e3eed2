import P2pShare.ResumeRequests
import P2pShare.TransitionMachine
import Mathlib.Algebra.BigOperators.Group.Finset.Piecewise
import Mathlib.Algebra.Order.Group.Multiset
import Mathlib.Data.Fintype.BigOperators
import Mathlib.Tactic.Abel

/-!
# Several tasks on one relay stream

Tasks call `send_ctrl` and `send_chunk_raw` on one `RelaySession`.  A call seals
its message, waits for the write lock, and makes its writes one after another
while it holds it; a write may reach the stream in parts, and at each await any
other task may go on.  The peer calls `recv_msg` again and again.
-/

namespace P2pShare

open ByteStream TransitionMachine

/-! ## The calls -/

inductive SendCall where
  | ctrl (message : ControlMessage)
  | chunk (index : ℕ) (payload : Bytes)
  deriving DecidableEq

namespace SendCall

def message : SendCall → RelayMsg
  | ctrl message => .ctrl message
  | chunk index payload => .chunk index payload

/-- The arguments of the two functions, as far as their types and a Noise
message allow. -/
def Fits (msgPack : MsgPack) : SendCall → Prop
  | ctrl message => (msgPack.encode message).length ≤ maxPlain
  | chunk index payload => index < 2 ^ 32 ∧ payload.length < 2 ^ 32

/-- The buffers of the `write_all` calls, in their order; `none` when the
message cannot be sealed. -/
def buffers (noise : Noise) (msgPack : MsgPack) (nonce : ℕ) :
    SendCall → Option (List Bytes)
  | ctrl message =>
      (noise.writeMessage nonce (msgPack.encode message)).map fun ciphertext =>
        [toBe 1 0, toBe 8 nonce, toBe 4 (ciphertext.length % 2 ^ 32), ciphertext]
  | chunk index payload =>
      some [toBe 1 1 ++ toBe 4 index ++ toBe 4 (payload.length % 2 ^ 32), payload]

/-- `send_nonce.fetch_add(1)`, for control messages only. -/
def nextNonce (nonce : ℕ) : SendCall → ℕ
  | ctrl _ => (nonce + 1) % 2 ^ 64
  | chunk _ _ => nonce

end SendCall

/-! ## The tasks and the reader -/

/-- `waiting`: the message is sealed and the lock is awaited.  `writing`: the
lock is held, and these bytes of these writes are left. -/
inductive Stage where
  | idle
  | waiting (message : RelayMsg) (left : List Bytes)
  | writing (left : List Bytes)
  | failed
  deriving DecidableEq

structure SendTask where
  stage : Stage
  todo : List SendCall
  deriving DecidableEq

/-- `acquired` lists the messages in the order in which their calls took the
lock; `unread` is what the peer has not read, and `received` what it has. -/
structure SharedStream (ι : Type) where
  tasks : ι → SendTask
  lock : Option ι
  sendNonce : ℕ
  acquired : List RelayMsg
  unread : Bytes
  received : List (Except Error RelayMsg)

inductive SharedEvent (ι : Type) where
  | encrypt (task : ι)
  | acquire (task : ι)
  | write (task : ι) (count : ℕ)
  | release (task : ι)
  | recv

namespace SharedStream

variable {ι : Type} [DecidableEq ι] (noise : Noise) (msgPack : MsgPack)
  (read : ℕ → Bytes → Option Bytes) (calls : ι → List SendCall)

def setStage (s : SharedStream ι) (task : ι) (stage : Stage) :
    SharedStream ι :=
  { s with
    tasks := Function.update s.tasks task { s.tasks task with stage } }

/-- What is left of a write of which `count` more bytes are taken. -/
def afterWrite (buffer : Bytes) (count : ℕ) (left : List Bytes) : List Bytes :=
  if buffer.drop count = [] then left else buffer.drop count :: left

def next (s : SharedStream ι) : SharedEvent ι → Option (SharedStream ι)
  | .encrypt task =>
      match s.tasks task with
      | ⟨.idle, call :: todo⟩ =>
          let stage :=
            match call.buffers noise msgPack s.sendNonce with
            | some left => .waiting call.message left
            | none => .failed
          some
            { s with
              tasks := Function.update s.tasks task ⟨stage, todo⟩
              sendNonce := call.nextNonce s.sendNonce }
      | _ => none
  | .acquire task =>
      match (s.tasks task).stage, s.lock with
      | .waiting message left, none =>
          some
            { s.setStage task (.writing left) with
              lock := some task
              acquired := s.acquired ++ [message] }
      | _, _ => none
  | .write task count =>
      match (s.tasks task).stage with
      | .writing (buffer :: left) =>
          some
            { s.setStage task (.writing (afterWrite buffer count left)) with
              unread := s.unread ++ buffer.take count }
      | _ => none
  | .release task =>
      match (s.tasks task).stage with
      | .writing [] => some { s.setStage task .idle with lock := none }
      | _ => none
  | .recv =>
      (recvMsg read msgPack.decode s.unread).map fun (result, rest) =>
        { s with unread := rest, received := s.received ++ [result] }

structure Starts (s : SharedStream ι) : Prop where
  tasks : s.tasks = fun task => ⟨.idle, calls task⟩
  lock : s.lock = none
  sendNonce : s.sendNonce < 2 ^ 64
  acquired : s.acquired = []
  unread : s.unread = []
  received : s.received = []

def machine : Machine (SharedStream ι) (SharedEvent ι) where
  start := Starts calls
  next := next noise msgPack read

/-- All calls have returned. -/
def Finished (s : SharedStream ι) : Prop :=
  ∀ task, s.tasks task = ⟨.idle, []⟩

end SharedStream

/-! ## Reading with more bytes behind -/

section Reading

variable {read : ℕ → Bytes → Option Bytes}
  {decode : Bytes → Option ControlMessage}

theorem readExact_more {count : ℕ} {input bytes rest : Bytes}
    (hread : readExact count input = some (bytes, rest)) (more : Bytes) :
    readExact count (input ++ more) = some (bytes, rest ++ more) := by
  obtain ⟨rfl, hlength⟩ := readExact_eq_some.mp hread
  rw [List.append_assoc]
  exact readExact_append hlength

theorem readBe_more {width value : ℕ} {input rest : Bytes}
    (hread : readBe width input = some (value, rest)) (more : Bytes) :
    readBe width (input ++ more) = some (value, rest ++ more) := by
  unfold readBe at hread ⊢
  obtain ⟨⟨bytes, tail⟩, hexact, hvalue⟩ := Option.map_eq_some_iff.mp hread
  cases hvalue
  rw [readExact_more hexact]
  rfl

theorem recvCtrl_more {input rest : Bytes}
    {result : Except Error ControlMessage}
    (hrecv : recvCtrl read decode input = some (result, rest)) (more : Bytes) :
    recvCtrl read decode (input ++ more) = some (result, rest ++ more) := by
  unfold recvCtrl at hrecv ⊢
  simp only [Option.bind_eq_some_iff, Option.map_eq_some_iff,
    Prod.exists] at hrecv
  obtain ⟨nonce, input₁, hnonce, length, input₂, hlength, ciphertext, input₃,
    hexact, hresult⟩ := hrecv
  rw [readBe_more hnonce, Option.bind_some]
  dsimp only
  rw [readBe_more hlength, Option.bind_some]
  dsimp only
  rw [readExact_more hexact, Option.map_some]
  cases hplain : read nonce ciphertext with
  | none =>
      simp only [hplain] at hresult
      cases hresult
      rfl
  | some plaintext =>
      cases hdecode : decode plaintext with
      | none =>
          simp only [hplain, hdecode] at hresult
          cases hresult
          simp [hdecode]
      | some message =>
          simp only [hplain, hdecode] at hresult
          cases hresult
          simp [hdecode]

/-- A message that has arrived is read as it is, whatever arrives after it. -/
theorem recvMsg_more {input rest : Bytes} {result : Except Error RelayMsg}
    (hrecv : recvMsg read decode input = some (result, rest)) (more : Bytes) :
    recvMsg read decode (input ++ more) = some (result, rest ++ more) := by
  unfold recvMsg at hrecv ⊢
  simp only [Option.bind_eq_some_iff, Prod.exists] at hrecv
  obtain ⟨type, body, htype, hbody⟩ := hrecv
  rw [readBe_more htype, Option.bind_some]
  dsimp only
  split at hbody
  next hzero =>
    obtain ⟨⟨received, tail⟩, hctrl, hresult⟩ :=
      Option.map_eq_some_iff.mp hbody
    cases hresult
    rw [if_pos hzero, recvCtrl_more hctrl]
    rfl
  next hzero =>
    rw [if_neg hzero]
    split at hbody
    next hone =>
      simp only [Option.bind_eq_some_iff, Option.map_eq_some_iff,
        Prod.exists] at hbody
      obtain ⟨index, fields, hindex, length, tail, hlength, ciphertext, rest',
        hexact, hresult⟩ := hbody
      cases hresult
      rw [if_pos hone, readBe_more hindex, Option.bind_some]
      dsimp only
      rw [readBe_more hlength, Option.bind_some]
      dsimp only
      rw [readExact_more hexact]
      rfl
    next hone =>
      cases hbody
      rw [if_neg hone]

/-- These bytes are a frame of the message. -/
def IsFrame (read : ℕ → Bytes → Option Bytes)
    (decode : Bytes → Option ControlMessage) (bytes : Bytes)
    (message : RelayMsg) : Prop :=
  ∀ rest, recvMsg read decode (bytes ++ rest) = some (.ok message, rest)

variable {noise : Noise} {msgPack : MsgPack}

/-- The writes of a call make up a frame of its message. -/
theorem isFrame_buffers
    (hread : ∀ nonce plaintext,
      read nonce (noise.cipher nonce plaintext) = some plaintext)
    {call : SendCall} (hfits : call.Fits msgPack) {nonce : ℕ}
    (hnonce : nonce < 2 ^ 64) :
    ∃ left, call.buffers noise msgPack nonce = some left ∧
      IsFrame read msgPack.decode left.flatten call.message := by
  cases call with
  | ctrl message =>
      have hlength : (msgPack.encode message).length + 16 ≤ maxMessage :=
        Nat.add_le_add_right hfits 16
      have hwrite : noise.writeMessage nonce (msgPack.encode message) =
          some (noise.cipher nonce (msgPack.encode message)) :=
        if_pos hlength
      refine ⟨_, by rw [SendCall.buffers, hwrite]; rfl, ?_⟩
      have hplain := hread nonce (msgPack.encode message)
      nth_rewrite 1 [← Nat.mod_eq_of_lt hnonce] at hplain
      have hsend : relayCtrlBytes noise msgPack nonce message =
          some ([toBe 1 0, toBe 8 nonce,
            toBe 4 ((noise.cipher nonce (msgPack.encode message)).length %
              2 ^ 32),
            noise.cipher nonce (msgPack.encode message)].flatten) := by
        unfold relayCtrlBytes ctrlBytes
        rw [hwrite]
        simp
      intro rest
      exact recvMsg_relayCtrlBytes hplain (msgPack.decode_encode message) hsend
        rest
  | chunk index payload =>
      obtain ⟨hindex, hlength⟩ := hfits
      refine ⟨_, rfl, ?_⟩
      intro rest
      have hmod : payload.length % 2 ^ 32 = payload.length :=
        Nat.mod_eq_of_lt hlength
      rw [hmod]
      simp only [List.flatten_cons, List.flatten_nil, List.append_nil,
        List.append_assoc]
      unfold recvMsg
      rw [readBe_append (by norm_num), Option.bind_some]
      dsimp only
      rw [if_neg (by norm_num), if_pos rfl, readBe_append hindex,
        Option.bind_some]
      dsimp only
      rw [readBe_append hlength, Option.bind_some]
      dsimp only
      rw [readExact_append rfl]
      rfl

end Reading

/-! ## The invariant -/

/-- The messages a task has still to put on the stream. -/
def SendTask.owed (task : SendTask) : Multiset RelayMsg :=
  (match task.stage with
    | .waiting message _ => {message}
    | _ => 0) + (task.todo.map SendCall.message : List RelayMsg)

namespace SharedStream

variable {ι : Type} [DecidableEq ι] {noise : Noise} {msgPack : MsgPack}
  {read : ℕ → Bytes → Option Bytes} {calls : ι → List SendCall}
  {s t : SharedStream ι}

/-- What the task that holds the lock has still to write. -/
def heldBytes (lock : Option ι) (tasks : ι → SendTask) : Bytes :=
  match lock with
  | none => []
  | some task =>
      match (tasks task).stage with
      | .writing left => left.flatten
      | _ => []

/-- The frames of the messages that took the lock and were not received. -/
structure InFlight (s : SharedStream ι) (read : ℕ → Bytes → Option Bytes)
    (decode : Bytes → Option ControlMessage) (done later : List RelayMsg)
    (frames : List Bytes) : Prop where
  acquired : s.acquired = done ++ later
  received : s.received = done.map .ok
  framed : List.Forall₂ (IsFrame read decode) frames later
  bytes : s.unread ++ heldBytes s.lock s.tasks = frames.flatten

/-- What holds of one task. -/
structure TaskSound (read : ℕ → Bytes → Option Bytes) (msgPack : MsgPack)
    (lock : Option ι) (task : ι) (state : SendTask) : Prop where
  fits : ∀ call ∈ state.todo, call.Fits msgPack
  not_failed : state.stage ≠ .failed
  waiting : ∀ message left, state.stage = .waiting message left →
    IsFrame read msgPack.decode left.flatten message
  holder : (∃ left, state.stage = .writing left) ↔ lock = some task

structure Sound [Fintype ι] (read : ℕ → Bytes → Option Bytes)
    (msgPack : MsgPack) (calls : ι → List SendCall) (s : SharedStream ι) :
    Prop where
  sendNonce : s.sendNonce < 2 ^ 64
  task : ∀ task, TaskSound read msgPack s.lock task (s.tasks task)
  inFlight : ∃ done later frames,
    s.InFlight read msgPack.decode done later frames
  tally : (s.acquired : Multiset RelayMsg) + ∑ task, (s.tasks task).owed =
    ∑ task, (((calls task).map SendCall.message : List RelayMsg) :
      Multiset RelayMsg)

theorem sum_owed_update [Fintype ι] (tasks : ι → SendTask) (task : ι)
    (state : SendTask) :
    ∑ other, (Function.update tasks task state other).owed + (tasks task).owed =
      ∑ other, (tasks other).owed + state.owed := by
  have hsum : ∀ value : SendTask,
      ∑ other, (Function.update tasks task value other).owed =
        value.owed + ∑ other ∈ Finset.univ \ {task}, (tasks other).owed := by
    intro value
    have hupdate : (fun other => (Function.update tasks task value other).owed) =
        Function.update (fun other => (tasks other).owed) task value.owed := by
      funext other
      exact Function.apply_update (fun _ => SendTask.owed) tasks task value other
    rw [hupdate]
    exact Finset.sum_update_of_mem (Finset.mem_univ task) _ _
  have hself := hsum (tasks task)
  rw [Function.update_eq_self] at hself
  rw [hsum state, hself]
  abel

/-- A task that moves on without the lock changing hands. -/
theorem taskSound_update {lock : Option ι} {tasks : ι → SendTask} {task : ι}
    {state : SendTask}
    (hsound : ∀ task, TaskSound read msgPack lock task (tasks task))
    (hstate : TaskSound read msgPack lock task state) :
    ∀ other, TaskSound read msgPack lock other
      (Function.update tasks task state other) := by
  intro other
  by_cases hother : other = task
  · subst hother
    rw [Function.update_self]
    exact hstate
  · rw [Function.update_of_ne hother]
    exact hsound other

theorem heldBytes_update_of_ne {lock : Option ι} (tasks : ι → SendTask)
    {task : ι} (state : SendTask) (hlock : lock ≠ some task) :
    heldBytes lock (Function.update tasks task state) = heldBytes lock tasks := by
  unfold heldBytes
  cases lock with
  | none => rfl
  | some holder =>
      have hholder : holder ≠ task := fun heq => hlock (congrArg some heq)
      dsimp only
      rw [Function.update_of_ne hholder]

theorem heldBytes_update_self (tasks : ι → SendTask) (task : ι)
    (left : List Bytes) (todo : List SendCall) :
    heldBytes (some task) (Function.update tasks task ⟨.writing left, todo⟩) =
      left.flatten := by
  unfold heldBytes
  dsimp only
  rw [Function.update_self]

omit [DecidableEq ι] in
theorem heldBytes_of_writing {lock : Option ι} {tasks : ι → SendTask} {task : ι}
    {left : List Bytes} (hlock : lock = some task)
    (hstage : (tasks task).stage = .writing left) :
    heldBytes lock tasks = left.flatten := by
  subst hlock
  unfold heldBytes
  dsimp only
  rw [hstage]

theorem flatten_afterWrite (buffer : Bytes) (count : ℕ) (left : List Bytes) :
    (afterWrite buffer count left).flatten =
      buffer.drop count ++ left.flatten := by
  unfold afterWrite
  split
  next hempty => rw [hempty, List.nil_append]
  next => rw [List.flatten_cons]

theorem nextNonce_lt {nonce : ℕ} (call : SendCall) (hnonce : nonce < 2 ^ 64) :
    call.nextNonce nonce < 2 ^ 64 := by
  cases call with
  | ctrl message => exact Nat.mod_lt _ (by norm_num)
  | chunk index payload => exact hnonce

section Steps

variable [Fintype ι] (hsound : s.Sound read msgPack calls) {task : ι}

include hsound

theorem sound_encrypt
    (hread : ∀ nonce plaintext,
      read nonce (noise.cipher nonce plaintext) = some plaintext)
    (hnext : s.next noise msgPack read (.encrypt task) = some t) :
    t.Sound read msgPack calls := by
  simp only [next] at hnext
  split at hnext
  next call todo htask =>
    cases hnext
    have hbefore := hsound.task task
    rw [htask] at hbefore
    have hfits := hbefore.fits call List.mem_cons_self
    obtain ⟨left, hbuffers, hframe⟩ := isFrame_buffers hread hfits
      hsound.sendNonce
    have hlock : s.lock ≠ some task := by
      intro hlock
      obtain ⟨left', hwriting⟩ := hbefore.holder.mpr hlock
      contradiction
    rw [hbuffers]
    constructor
    · exact nextNonce_lt call hsound.sendNonce
    · apply taskSound_update hsound.task
      constructor
      · exact fun other hother =>
          hbefore.fits other (List.mem_cons_of_mem _ hother)
      · simp
      · intro message left' hstage
        cases hstage
        exact hframe
      · simp [hlock]
    · obtain ⟨done, later, frames, hflight⟩ := hsound.inFlight
      refine ⟨done, later, frames, hflight.acquired, hflight.received,
        hflight.framed, ?_⟩
      dsimp only
      rw [heldBytes_update_of_ne s.tasks _ hlock]
      exact hflight.bytes
    · have hsum := sum_owed_update s.tasks task
        ⟨.waiting call.message left, todo⟩
      have howed : (s.tasks task).owed =
          SendTask.owed ⟨.waiting call.message left, todo⟩ := by
        rw [htask]
        simp [SendTask.owed]
      rw [howed] at hsum
      have hsame := add_right_cancel hsum
      dsimp only
      rw [hsame]
      exact hsound.tally
  next => contradiction

theorem sound_acquire
    (hnext : s.next noise msgPack read (.acquire task) = some t) :
    t.Sound read msgPack calls := by
  simp only [next] at hnext
  split at hnext
  next message left hstage hlock =>
    cases hnext
    have hbefore := hsound.task task
    have hframe := hbefore.waiting message left hstage
    constructor
    · exact hsound.sendNonce
    · intro other
      dsimp only [setStage]
      by_cases hother : other = task
      · subst hother
        rw [Function.update_self]
        exact ⟨hbefore.fits, by simp, by simp, by simp⟩
      · rw [Function.update_of_ne hother]
        have hthat := hsound.task other
        refine ⟨hthat.fits, hthat.not_failed, hthat.waiting, ?_⟩
        rw [hthat.holder, hlock]
        simp [Ne.symm hother]
    · obtain ⟨done, later, frames, hflight⟩ := hsound.inFlight
      have hbytes := hflight.bytes
      rw [hlock] at hbytes
      refine ⟨done, later ++ [message], frames ++ [left.flatten], ?_,
        hflight.received, ?_, ?_⟩
      · dsimp only
        rw [hflight.acquired, List.append_assoc]
      · exact List.rel_append hflight.framed (.cons hframe .nil)
      · dsimp only [setStage]
        rw [heldBytes_update_self, List.flatten_append, ← hbytes]
        simp [heldBytes]
    · have hsum := sum_owed_update s.tasks task
        { s.tasks task with stage := .writing left }
      have howed : (s.tasks task).owed = {message} +
          SendTask.owed { s.tasks task with stage := .writing left } := by
        simp [SendTask.owed, hstage]
      rw [howed, ← add_assoc] at hsum
      have hmove := add_right_cancel hsum
      have htally := hsound.tally
      rw [← hmove] at htally
      rw [← htally, ← Multiset.coe_add, Multiset.coe_singleton]
      dsimp only [setStage]
      abel
  next => contradiction

/-- A step of the task that holds the lock. -/
theorem sound_writing {left left' : List Bytes} {bytes : Bytes}
    (hstage : (s.tasks task).stage = .writing left)
    (hbytes : left.flatten = bytes ++ left'.flatten) :
    Sound read msgPack calls
      { s.setStage task (.writing left') with unread := s.unread ++ bytes } := by
  have hbefore := hsound.task task
  have hlock := hbefore.holder.mp ⟨left, hstage⟩
  constructor
  · exact hsound.sendNonce
  · apply taskSound_update hsound.task
    exact ⟨hbefore.fits, by simp, by simp, by simp [hlock]⟩
  · obtain ⟨done, later, frames, hflight⟩ := hsound.inFlight
    have hflightBytes := hflight.bytes
    rw [heldBytes_of_writing hlock hstage, hbytes] at hflightBytes
    refine ⟨done, later, frames, hflight.acquired, hflight.received,
      hflight.framed, ?_⟩
    dsimp only [setStage]
    rw [hlock, heldBytes_update_self, List.append_assoc]
    exact hflightBytes
  · have hsum := sum_owed_update s.tasks task
      { s.tasks task with stage := .writing left' }
    have howed : (s.tasks task).owed =
        SendTask.owed { s.tasks task with stage := .writing left' } := by
      simp [SendTask.owed, hstage]
    rw [howed] at hsum
    have hsame := add_right_cancel hsum
    dsimp only [setStage]
    rw [hsame]
    exact hsound.tally

theorem sound_write {count : ℕ}
    (hnext : s.next noise msgPack read (.write task count) = some t) :
    t.Sound read msgPack calls := by
  simp only [next] at hnext
  split at hnext
  next buffer left hstage =>
    cases hnext
    apply sound_writing hsound hstage
    rw [flatten_afterWrite, ← List.append_assoc, List.take_append_drop,
      List.flatten_cons]
  next => contradiction

theorem sound_release
    (hnext : s.next noise msgPack read (.release task) = some t) :
    t.Sound read msgPack calls := by
  simp only [next] at hnext
  split at hnext
  next hstage =>
    cases hnext
    have hbefore := hsound.task task
    have hlock := hbefore.holder.mp ⟨[], hstage⟩
    constructor
    · exact hsound.sendNonce
    · intro other
      dsimp only [setStage]
      by_cases hother : other = task
      · subst hother
        rw [Function.update_self]
        exact ⟨hbefore.fits, by simp, by simp, by simp⟩
      · rw [Function.update_of_ne hother]
        have hthat := hsound.task other
        refine ⟨hthat.fits, hthat.not_failed, hthat.waiting, ?_⟩
        rw [hthat.holder, hlock]
        simp [Ne.symm hother]
    · obtain ⟨done, later, frames, hflight⟩ := hsound.inFlight
      have hbytes := hflight.bytes
      rw [heldBytes_of_writing hlock hstage] at hbytes
      exact ⟨done, later, frames, hflight.acquired, hflight.received,
        hflight.framed, hbytes⟩
    · have hsum := sum_owed_update s.tasks task
        { s.tasks task with stage := .idle }
      have howed : (s.tasks task).owed =
          SendTask.owed { s.tasks task with stage := .idle } := by
        simp [SendTask.owed, hstage]
      rw [howed] at hsum
      have hsame := add_right_cancel hsum
      dsimp only [setStage]
      rw [hsame]
      exact hsound.tally
  next => contradiction

/-- What is received is the next of the messages that took the lock. -/
theorem sound_recv (hnext : s.next noise msgPack read .recv = some t) :
    t.Sound read msgPack calls := by
  obtain ⟨⟨result, rest⟩, hrecv, rfl⟩ := Option.map_eq_some_iff.mp hnext
  obtain ⟨done, later, frames, hflight⟩ := hsound.inFlight
  have hwhole := recvMsg_more hrecv (heldBytes s.lock s.tasks)
  rw [hflight.bytes] at hwhole
  refine ⟨hsound.sendNonce, hsound.task, ?_, hsound.tally⟩
  have hframed := hflight.framed
  cases hframed with
  | nil => contradiction
  | @cons frame message frames later hframe hframes =>
      rw [List.flatten_cons, hframe] at hwhole
      simp only [Option.some.injEq, Prod.mk.injEq] at hwhole
      obtain ⟨rfl, hrest⟩ := hwhole
      refine ⟨done ++ [message], later, frames, ?_, ?_, hframes, hrest.symm⟩
      · rw [List.append_assoc]
        exact hflight.acquired
      · dsimp only
        rw [hflight.received, List.map_append]
        rfl

end Steps

omit [DecidableEq ι] in
theorem sound_start [Fintype ι]
    (hcalls : ∀ task, ∀ call ∈ calls task, call.Fits msgPack)
    (hstart : s.Starts calls) : s.Sound read msgPack calls := by
  have htasks := hstart.tasks
  constructor
  · exact hstart.sendNonce
  · intro task
    rw [htasks, hstart.lock]
    exact ⟨hcalls task, by simp, by simp, by simp⟩
  · refine ⟨[], [], [], hstart.acquired, hstart.received, .nil, ?_⟩
    rw [hstart.unread, hstart.lock]
    rfl
  · rw [hstart.acquired, htasks]
    simp [SendTask.owed]

theorem sound_of_reachable [Fintype ι]
    (hread : ∀ nonce plaintext,
      read nonce (noise.cipher nonce plaintext) = some plaintext)
    (hcalls : ∀ task, ∀ call ∈ calls task, call.Fits msgPack)
    (hreach : (machine noise msgPack read calls).Reachable s) :
    s.Sound read msgPack calls := by
  apply hreach.invariant
  · exact fun s₀ hstart => sound_start hcalls hstart
  · intro u event v hu hnext
    change u.next noise msgPack read event = some v at hnext
    cases event with
    | encrypt task => exact sound_encrypt hu hread hnext
    | acquire task => exact sound_acquire hu hnext
    | write task count => exact sound_write hu hnext
    | release task => exact sound_release hu hnext
    | recv => exact sound_recv hu hnext

end SharedStream

end P2pShare
