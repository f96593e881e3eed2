import P2pShare.DiskAtComplete
import P2pShare.WriteAccounts

/-!
# Where the chunks were written

`Complete` says that every chunk accepted was written without an error at its
place and nowhere else.  The join before it awaits the task that has given the
last chunk away, and nobody awaits the last buffer of that task, so this is so
in the executions in which each last buffer lands in time.
-/

namespace P2pShare

open ByteStream PathResolution RandomAccessFile SharedCursor TransitionMachine

namespace DiskRun

section Accounts

variable {Loop : Type}

/-- What the history tells of the write of a number. -/
def account (number : ℕ) : List (DiskRun Loop × DiskRunEvent) → Account
  | [] => .empty
  | (s, .disk other event) :: earlier =>
      if other = number then
        s.disk.enter number event (account number earlier)
      else account number earlier
  | (_, .receiver _) :: earlier | (_, .frame _) :: earlier =>
      account number earlier

/-- The write of each accepted chunk has put its bytes at its place without an
error, and nowhere else. -/
def EachWritten (history : List (DiskRun Loop × DiskRunEvent))
    (s : DiskRun Loop) : Prop :=
  ∃ manifest base, s.opened = some (manifest, base) ∧
    ∀ number chunk, s.accepted[number]? = some chunk →
      (s.disk.writes[number]?).map Write.bytes = some chunk.2 ∧
        (account number history).Wrote (manifest.offset chunk.1) chunk.2

/-- The receiver has not ended. -/
def Going (s : DiskRun Loop) : Prop :=
  match s.receiver with
  | .setup _ | .loop _ => True
  | .returned _ | .failed _ => False

/-- The accounts of the writes are those of writes that kept to their places. -/
def Tracked (history : List (DiskRun Loop × DiskRunEvent))
    (s : DiskRun Loop) : Prop :=
  s.Going ∨ s.completed = true →
    s.disk.Accounted fun number => account number history

variable {kind : DiskKind Loop} {read : ℕ → Bytes → Option Bytes}
  {decode : Bytes → Option ControlMessage} {outputDir : RawPath}
  {history : List (DiskRun Loop × DiskRunEvent)} {s t : DiskRun Loop}
  {accounts : ℕ → Account}

theorem account_disk (number : ℕ) (event : DiskEvent) :
    (fun other => account other ((s, .disk number event) :: history)) =
      Function.update (fun other => account other history) number
        (s.disk.enter number event (account number history)) := by
  funext other
  rw [account]
  by_cases hsame : number = other
  · subst hsame
    rw [if_pos rfl, Function.update_self]
  · rw [if_neg hsame, Function.update_of_ne (Ne.symm hsame)]

theorem tracked_of_starts (hstart : s.Starts kind) : Tracked [] s :=
  fun _ => SharedFile.Accounted.of_nil hstart.writes

/-- Nothing the receiver does moves a write on. -/
theorem accounted_emit (haccounted : s.disk.Accounted accounts)
    (receiver : Receiver Loop) (output : ReceiverOutput) :
    (s.emit kind receiver output).disk.Accounted accounts := by
  cases output with
  | file op =>
      cases op with
      | write path offset bytes =>
          simp only [emit]
          split
          · exact haccounted.copy offset bytes
          · exact haccounted
      | _ => exact ⟨haccounted.of, haccounted.empty⟩
  | ctrl message => cases message <;> exact haccounted
  | none => exact haccounted
  | save state => exact haccounted
  | delete state => exact haccounted

theorem accounted_accept (haccounted : s.disk.Accounted accounts)
    (receiver : Receiver Loop) (offset : ℕ → ℕ) :
    (s.accept kind receiver offset).disk.Accounted accounts := by
  unfold accept
  split
  next => exact haccounted
  next index plaintext _ =>
    dsimp only
    split
    · exact haccounted
    · exact haccounted.copy (offset index) plaintext

/-- A receiver that has ended takes no step. -/
theorem going_of_step {event : ReceiverEvent} {receiver : Receiver Loop}
    {output : ReceiverOutput}
    (hstep : s.receiver.step kind.toReceiveLoop outputDir event =
      some (receiver, output)) : s.Going := by
  unfold Going
  cases hreceiver : s.receiver with
  | setup setup => exact True.intro
  | loop loop => exact True.intro
  | returned books =>
      rw [hreceiver] at hstep
      cases event <;> cases hstep
  | failed error =>
      rw [hreceiver] at hstep
      cases event <;> cases hstep

/-- As long as the receiver has not failed, its writes are in order. -/
theorem Booked.settled (hbooked : s.Booked kind)
    (hlive : s.Going ∨ s.completed = true) :
    ∃ base, s.disk.Settled base := by
  rcases hlive with hgoing | hcompleted
  · have hbooks := hbooked.receiver
    unfold ReceiverBooked at hbooks
    unfold Going at hgoing
    cases hreceiver : s.receiver with
    | setup setup =>
        rw [hreceiver] at hbooks
        have hwrites := hbooks.writes
        refine ⟨s.disk.file, ?_⟩
        constructor <;> simp [hwrites]
    | loop loop =>
        rw [hreceiver] at hbooks
        obtain ⟨base, hloop⟩ := hbooks
        exact ⟨base, hloop.settled⟩
    | returned books =>
        rw [hreceiver] at hgoing
        exact hgoing.elim
    | failed error =>
        rw [hreceiver] at hgoing
        exact hgoing.elim
  · obtain ⟨_, base, hfinished⟩ := hbooked.completed hcompleted
    exact ⟨base, hfinished.settled⟩

theorem Tracked.step {event : DiskRunEvent} (htracked : Tracked history s)
    (hbooked : s.Booked kind)
    (hnext : next kind read decode outputDir s event = some t) :
    Tracked ((s, event) :: history) t := by
  intro hlive
  cases event with
  | receiver event =>
      obtain ⟨_, receiver, output, hstep, rfl⟩ := stepReceiver_cases hnext
      have haccounted := htracked (Or.inl (going_of_step hstep))
      exact accounted_emit haccounted receiver output
  | frame input =>
      simp only [next] at hnext
      split at hnext
      next loop hreceiver =>
        obtain ⟨receiver, _, rfl⟩ := Option.map_eq_some_iff.mp hnext
        have hgoing : s.Going := by
          unfold Going
          rw [hreceiver]
          exact True.intro
        exact accounted_accept (htracked (Or.inl hgoing)) receiver _
      next => contradiction
  | disk number event =>
      obtain ⟨disk, hdisk, rfl⟩ := Option.map_eq_some_iff.mp hnext
      have hbefore : s.Going ∨ s.completed = true := hlive
      obtain ⟨base, hsettled⟩ := hbooked.settled hbefore
      have hstep := (nextDisk_cases hdisk).1
      rw [account_disk]
      exact (htracked hbefore).step hsettled hstep

/-- Once every write has returned and nothing is under way or lost, the chunks
accepted have been written. -/
theorem Finished.eachWritten {manifest : FileManifest} {base : Bytes}
    (hfinished : s.Finished kind manifest base) (hclean : s.disk.Clean)
    (haccounted : s.disk.Accounted fun number => account number history) :
    EachWritten history s := by
  refine ⟨manifest, base, hfinished.opened, ?_⟩
  intro number chunk hchunk
  have hplaced := congrArg (fun values => values[number]?) hfinished.placed
  simp only [List.getElem?_map, hchunk, Option.map_some] at hplaced
  obtain ⟨write, hwrite, hpair⟩ := Option.map_eq_some_iff.mp hplaced
  have hsame : write.place = manifest.offset chunk.1 ∧
      write.bytes = chunk.2 := Prod.mk.inj hpair
  obtain ⟨hplace, hbytes⟩ := hsame
  refine ⟨?_, ?_⟩
  · rw [hwrite, Option.map_some, hbytes]
  · rw [← hplace, ← hbytes]
    exact haccounted.wrote hfinished.settled hfinished.returned hclean hwrite

end Accounts

end DiskRun

/-- In an execution in which no copy seeks while a buffer is under way, and none
is under way or lost when `Complete` is sent, `Complete` means that every chunk
was written in its own place. -/
theorem complete_means_each_written (read : ℕ → Bytes → Option Bytes)
    (outputDir : RawPath)
    {history : List (DirectDiskRun × DiskRunEvent)} {s : DirectDiskRun}
    (hexec : (DirectDiskRun.machine read outputDir).Execution history s)
    (hmeets : ∀ entry ∈ history,
      DirectDiskRun.Undisturbed entry.1 entry.2)
    (hcompleted : s.completed = true) : DiskRun.EachWritten history s := by
  have hkept : DirectDiskRun.Kept s ∧ DiskRun.Tracked history s := by
    apply hexec.preserves hmeets
    · intro s₀ hstart
      have hstart : s₀.Starts directDiskKind := hstart
      have hbooked := hstart.booked directDiskKind_laws
      exact ⟨⟨hbooked, by simp [hstart.completed]⟩,
        DiskRun.tracked_of_starts hstart⟩
    · rintro earlier u event v ⟨hkept, htracked⟩ hundisturbed hnext
      exact ⟨hkept.step hundisturbed hnext, htracked.step hkept.booked hnext⟩
  obtain ⟨hkept, htracked⟩ := hkept
  obtain ⟨manifest, base, hfinished⟩ := hkept.booked.completed hcompleted
  exact hfinished.eachWritten (hkept.clean hcompleted)
    (htracked (Or.inr hcompleted))

namespace DirectDiskRun

/-- What a run from the fresh transfer leaves behind. -/
def visitsFresh (events : List DiskRunEvent) :
    List (DirectDiskRun × DiskRunEvent) :=
  (machine tagRead ['d']).visits fresh events

theorem execution_of_runFrom {events : List DiskRunEvent} {s : DirectDiskRun}
    (hrun : (machine tagRead ['d']).runFrom fresh events = some s) :
    (machine tagRead ['d']).Execution (visitsFresh events) s := by
  have hstart : (machine tagRead ['d']).Execution [] fresh :=
    Machine.Execution.start starts_fresh
  have hexec := hstart.of_runFrom hrun
  rw [List.append_nil] at hexec
  exact hexec

end DirectDiskRun

theorem complete_means_each_written_sample :
    ∃ history s,
      (DirectDiskRun.machine tagRead ['d']).Execution history s ∧
        (∀ entry ∈ history, DirectDiskRun.Undisturbed entry.1 entry.2) ∧
        s.completed = true ∧ s.accepted = [(0, [1, 2]), (1, [3, 4])] ∧
        DiskRun.EachWritten history s := by
  have hrun : ((DirectDiskRun.machine tagRead ['d']).runFrom
      DirectDiskRun.fresh DirectDiskRun.inTurn).map
        (fun s => (s.completed, s.accepted)) =
          some (true, [(0, [1, 2]), (1, [3, 4])]) := by
    decide +kernel
  have hmeets : ∀ entry ∈ DirectDiskRun.visitsFresh DirectDiskRun.inTurn,
      DirectDiskRun.Undisturbed entry.1 entry.2 := by
    decide +kernel
  obtain ⟨s, hs, hsample⟩ := Option.map_eq_some_iff.mp hrun
  simp only [Prod.mk.injEq] at hsample
  have hexec := DirectDiskRun.execution_of_runFrom hs
  exact ⟨_, s, hexec, hmeets, hsample.1, hsample.2,
    complete_means_each_written tagRead ['d'] hexec hmeets hsample.1⟩

/-- The first of two chunks lands in the place of the second, and `Complete` is
sent. -/
theorem complete_over_misplaced_chunk :
    ¬ ∀ read outputDir history s,
      (DirectDiskRun.machine read outputDir).Execution history s →
      s.completed = true → DiskRun.EachWritten history s := by
  intro hclaim
  have hrun : ((DirectDiskRun.machine tagRead ['d']).runFrom
      DirectDiskRun.fresh DirectDiskRun.overtaken).map
        (fun s => (s.completed, s.accepted)) =
          some (true, [(0, [1, 2]), (1, [3, 4])]) := by
    decide +kernel
  have hparts : (DiskRun.account 0
      (DirectDiskRun.visitsFresh DirectDiskRun.overtaken)).parts =
        [(2, [1, 2])] := by
    decide +kernel
  obtain ⟨s, hs, hsample⟩ := Option.map_eq_some_iff.mp hrun
  simp only [Prod.mk.injEq] at hsample
  obtain ⟨manifest, _, _, heach⟩ := hclaim tagRead ['d'] _ s
    (DirectDiskRun.execution_of_runFrom hs) hsample.1
  have hfirst : s.accepted[0]? = some (0, [1, 2]) := by
    rw [hsample.2]
    rfl
  have hadjoin := (heach 0 _ hfirst).2.adjoin
  rw [hparts, FileManifest.offset, Nat.zero_mul] at hadjoin
  exact absurd hadjoin.1 (by decide)

end P2pShare
