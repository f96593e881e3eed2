import P2pShare.DiskWrites
import P2pShare.Instances

/-!
# What is on disk when `Complete` is sent

The direct receiver sends `Complete` over a file that holds each accepted chunk
at its place as long as no copy seeks while a buffer is under way, and none is
under way or lost in the end.  The relay receiver needs no such condition: at
most the end of its last chunk is missing.
-/

namespace P2pShare

open ByteStream PathResolution RandomAccessFile SharedCursor TransitionMachine

/-! ## The two kinds -/

def directDiskKind : DiskKind DirectLoop where
  toLoopKind := directLoopKind
  firstSetup := .acceptBi
  selective := true

def relayDiskKind : DiskKind RelayLoop where
  toLoopKind := relayLoopKind
  firstSetup := .recvManifest
  selective := false

namespace DirectLoop

/-- A chunk that is held is given to the disk or held on. -/
theorem proceed_holding {loop next : DirectLoop} {output : ReceiverOutput}
    (hproceed : loop.proceed = some (.loop next, output))
    (hfile : ∀ op, output ≠ .file op) : next.holding = loop.holding := by
  unfold proceed at hproceed
  split at hproceed
  next => contradiction
  next index hpc =>
    cases hproceed
    rw [toHead_holding]
    simp [holding, hpc]
  next index plaintext hpc =>
    cases hproceed
    simp [holding, hpc]
  next index plaintext hpc =>
    cases hproceed
    exact absurd rfl (hfile _)
  next hpc =>
    cases hproceed
    rw [countSave_holding]
    simp [holding, hpc]
  next hpc =>
    cases hproceed
    rw [toHead_holding]
    simp [holding, hpc]
  next hpc =>
    cases hproceed
    simp [holding, hpc]
  next hpc =>
    cases hproceed
    simp [holding, hpc]
  next hpc =>
    cases hproceed
    simp [holding, hpc]
  next hpc => cases hproceed

theorem holding_of_receive {read : ℕ → Bytes → Option Bytes}
    {input : Bytes} {loop : DirectLoop} {result : DirectReceiver × Bytes}
    (hreceive : loop.receive read input = some result) :
    loop.holding = none := by
  unfold receive at hreceive
  split at hreceive
  next hpc => simp [holding, hpc]
  next => contradiction

/-- Only a chunk that is missed is accepted. -/
theorem missed_of_receive {read : ℕ → Bytes → Option Bytes}
    {input rest : Bytes} {loop next : DirectLoop} {chunk : ℕ × Bytes}
    (hreceive : loop.receive read input = some (.loop next, rest))
    (hheld : next.holding = some chunk) : chunk.1 ∈ loop.books.pending := by
  unfold receive at hreceive
  split at hreceive
  next hpc =>
    obtain ⟨⟨⟨outcome, bytesDone⟩, rest'⟩, hread, hresult⟩ :=
      Option.map_eq_some_iff.mp hreceive
    cases outcome with
    | failed error => cases hresult
    | skipped =>
        cases hresult
        rw [toHead_holding] at hheld
        contradiction
    | nack other =>
        cases hresult
        simp [holding] at hheld
    | accepted index plaintext =>
        cases hresult
        simp only [holding, Option.some.injEq] at hheld
        rw [← hheld]
        exact (readFrame_accepted hread).1
  next => contradiction

end DirectLoop

theorem directDiskKind_laws : directDiskKind.Laws where
  loop := directLoopKind_laws
  firstSetup := Or.inl rfl
  keeps := DirectLoop.proceed_holding
  idle := by
    intro read decode input loop receiver hreceive
    obtain ⟨result, hresult, _⟩ := Option.map_eq_some_iff.mp hreceive
    exact DirectLoop.holding_of_receive hresult
  missed := by
    intro _ read decode input loop next chunk hreceive hheld
    obtain ⟨⟨receiver, rest⟩, hresult, hnext⟩ :=
      Option.map_eq_some_iff.mp hreceive
    have hreceiver : receiver = .loop next := hnext
    rw [hreceiver] at hresult
    exact DirectLoop.missed_of_receive hresult hheld

namespace RelayLoop

theorem proceed_holding {loop next : RelayLoop} {output : ReceiverOutput}
    (hproceed : loop.proceed = some (.loop next, output))
    (hfile : ∀ op, output ≠ .file op) : next.holding = loop.holding := by
  unfold proceed at hproceed
  split at hproceed
  next => contradiction
  next index hpc =>
    cases hproceed
    rw [toHead_holding]
    simp [holding, hpc]
  next index plaintext hpc =>
    cases hproceed
    exact absurd rfl (hfile _)
  next hpc =>
    cases hproceed
    rw [afterAck_holding]
    simp [holding, hpc]
  next hpc =>
    cases hproceed
    rw [toHead_holding]
    simp [holding, hpc]
  next hpc =>
    cases hproceed
    simp [holding, hpc]
  next hpc =>
    cases hproceed
    simp [holding, hpc]
  next hpc => cases hproceed

theorem holding_of_receive {read : ℕ → Bytes → Option Bytes}
    {decode : Bytes → Option ControlMessage} {input : Bytes}
    {loop : RelayLoop} {result : RelayReceiver × Bytes}
    (hreceive : loop.receive read decode input = some result) :
    loop.holding = none := by
  unfold receive at hreceive
  split at hreceive
  next hpc => simp [holding, hpc]
  next => contradiction

end RelayLoop

theorem relayDiskKind_laws : relayDiskKind.Laws where
  loop := relayLoopKind_laws
  firstSetup := Or.inr rfl
  keeps := RelayLoop.proceed_holding
  idle := by
    intro read decode input loop receiver hreceive
    obtain ⟨result, hresult, _⟩ := Option.map_eq_some_iff.mp hreceive
    exact RelayLoop.holding_of_receive hresult
  missed := by
    intro hselective
    cases hselective

/-! ## Chunks that do not overlap -/

theorem FileManifest.lt_of_covers {manifest : FileManifest}
    {chunk : ℕ × Bytes} {index position : ℕ}
    (hsize : chunk.2.length = manifest.sizeOf chunk.1) (hlt : chunk.1 < index)
    (hcovers : Covers (manifest.placed chunk) position) :
    position < manifest.offset index := by
  obtain ⟨_, hhigh⟩ := hcovers
  have hplaced : (manifest.placed chunk).1 = manifest.offset chunk.1 := rfl
  have hbytes : (manifest.placed chunk).2 = chunk.2 := rfl
  have hbound := manifest.sizeOf_le_chunkSize chunk.1
  have hnext : manifest.offset (chunk.1 + 1) ≤ manifest.offset index :=
    Nat.mul_le_mul_right manifest.chunkSize hlt
  have hsucc := manifest.offset_succ chunk.1
  rw [hplaced, hbytes, hsize] at hhigh
  omega

/-- Chunks of different indices do not overlap. -/
theorem DiskRun.Finished.apart {Loop : Type} {kind : DiskKind Loop}
    {s : DiskRun Loop} {manifest : FileManifest} {base : Bytes}
    (hfinished : s.Finished kind manifest base)
    (hselective : kind.selective = true) :
    (s.accepted.map manifest.placed).Pairwise Apart := by
  have hindices := List.pairwise_map.mp (hfinished.nodup hselective)
  apply List.pairwise_map.mpr
  apply hindices.imp_of_mem
  intro first second hfirst hsecond hne position hcovers hother
  rcases Nat.lt_or_gt_of_ne hne with hlt | hlt
  · have hbelow := FileManifest.lt_of_covers
      (hfinished.sizes first hfirst) hlt hcovers
    exact absurd hother.1 (Nat.not_le_of_lt hbelow)
  · have hbelow := FileManifest.lt_of_covers
      (hfinished.sizes second hsecond) hlt hother
    exact absurd hcovers.1 (Nat.not_le_of_lt hbelow)

/-! ## The direct receiver -/

abbrev DirectDiskRun := DiskRun DirectLoop

namespace DirectDiskRun

/-- `decode` is for the frames of a relay stream. -/
def machine (read : ℕ → Bytes → Option Bytes) (outputDir : RawPath) :
    Machine DirectDiskRun DiskRunEvent :=
  DiskRun.machine directDiskKind read (fun _ => none) outputDir

def completes (s : DirectDiskRun) : Bool :=
  match s.receiver with
  | .loop loop => loop.pc = .complete
  | _ => false

/-- No copy seeks while a buffer is under way, and none is under way or lost
when the loop sends `Complete`. -/
def Undisturbed (s : DirectDiskRun) : DiskRunEvent → Prop
  | .disk _ .seeks => s.disk.Quiet
  | .receiver _ => completes s = true → s.disk.Clean
  | _ => True

instance (s : DirectDiskRun) : ∀ event, Decidable (Undisturbed s event)
  | .disk _ .seeks => inferInstanceAs (Decidable s.disk.Quiet)
  | .receiver _ =>
      inferInstanceAs (Decidable (completes s = true → s.disk.Clean))
  | .frame _ | .disk _ (.gives _) | .disk _ (.lands _) | .disk _ .loses
  | .disk _ .returns | .disk _ .fails => isTrue True.intro

variable {read : ℕ → Bytes → Option Bytes} {outputDir : RawPath}
  {s t : DirectDiskRun}

/-- What a run that nothing disturbs keeps. -/
structure Kept (s : DirectDiskRun) : Prop where
  booked : s.Booked directDiskKind
  clean : s.completed = true → s.disk.Clean

theorem Kept.step {event : DiskRunEvent} (hkept : Kept s)
    (hundisturbed : Undisturbed s event)
    (hnext : (machine read outputDir).next s event = some t) : Kept t := by
  have hquiet : s.SeeksQuiet event := by
    cases event with
    | disk number event =>
        cases event with
        | seeks => exact hundisturbed
        | _ => exact True.intro
    | _ => exact True.intro
  refine ⟨hkept.booked.step directDiskKind_laws hquiet hnext, ?_⟩
  intro hcompleted
  cases event with
  | receiver event =>
      obtain ⟨_, receiver, output, hstep, rfl⟩ :=
        DiskRun.stepReceiver_cases hnext
      by_cases hcomplete : output = .ctrl .complete
      · subst hcomplete
        obtain ⟨loop, other, hreceiver, hproceed⟩ :=
          DiskRun.loop_of_complete directDiskKind_laws hkept.booked hstep
        have hpc : loop.pc = .complete := by
          have hproceed : loop.proceed = some (other, .ctrl .complete) :=
            hproceed
          unfold DirectLoop.proceed at hproceed
          split at hproceed <;> first | assumption | cases hproceed
        apply hundisturbed
        simp [completes, hreceiver, hpc]
      · rw [DiskRun.emit_completed receiver hcomplete] at hcompleted
        have hfile := DiskRun.not_file_of_completed directDiskKind_laws
          hkept.booked hcompleted hstep
        rw [(DiskRun.emit_of_not_file receiver hfile).1]
        exact hkept.clean hcompleted
  | frame input =>
      unfold machine DiskRun.machine DiskRun.next at hnext
      dsimp only at hnext
      split at hnext
      next loop hreceiver =>
        obtain ⟨receiver, hreceive, rfl⟩ := Option.map_eq_some_iff.mp hnext
        rw [DiskRun.accept_completed] at hcompleted
        have hdisk : (s.accept directDiskKind receiver
            (directDiskKind.books loop).manifest.offset).disk = s.disk := by
          unfold DiskRun.accept
          split <;> rfl
        rw [hdisk]
        exact hkept.clean hcompleted
      next => contradiction
  | disk number event =>
      obtain ⟨disk, hdisk, rfl⟩ := Option.map_eq_some_iff.mp hnext
      obtain ⟨manifest, base, hfinished⟩ := hkept.booked.completed hcompleted
      have hnone := SharedFile.next_eq_none hfinished.returned
        (hkept.clean hcompleted) number event
      have hsome := (DiskRun.nextDisk_cases hdisk).1
      rw [hnone] at hsome
      contradiction

theorem kept_of_reachable
    (hreach : ((machine read outputDir).restrict Undisturbed).Reachable s) :
    Kept s := by
  apply hreach.invariant_restrict
  · intro s₀ hstart
    have hstart : s₀.Starts directDiskKind := hstart
    exact ⟨hstart.booked directDiskKind_laws, by simp [hstart.completed]⟩
  · exact fun _ _ _ hkept hundisturbed hnext => hkept.step hundisturbed hnext

end DirectDiskRun

/-- In a run in which no copy seeks while a buffer is under way, and none is
under way or lost when `Complete` is sent, the file then holds each accepted
chunk at its place, and else what it held before. -/
theorem complete_file_holds_chunks (read : ℕ → Bytes → Option Bytes)
    (outputDir : RawPath) {s : DirectDiskRun}
    (hreach : ((DirectDiskRun.machine read outputDir).restrict
      DirectDiskRun.Undisturbed).Reachable s)
    (hcompleted : s.completed = true) :
    ∃ manifest base, s.opened = some (manifest, base) ∧
      s.disk.file = writeAll base (s.accepted.map manifest.placed) ∧
      (∀ chunk ∈ s.accepted, ∀ position < chunk.2.length,
        s.disk.file[manifest.offset chunk.1 + position]? =
          chunk.2[position]?) ∧
      ∀ position < base.length,
        (∀ chunk ∈ s.accepted, ¬ Covers (manifest.placed chunk) position) →
          s.disk.file[position]? = base[position]? := by
  have hkept := DirectDiskRun.kept_of_reachable hreach
  obtain ⟨manifest, base, hfinished⟩ := hkept.booked.completed hcompleted
  have hfile := hfinished.file_of_clean (hkept.clean hcompleted)
  have hapart := hfinished.apart rfl
  refine ⟨manifest, base, hfinished.opened, hfile, ?_, ?_⟩
  · intro chunk hchunk position hposition
    have hmem : manifest.placed chunk ∈ s.accepted.map manifest.placed :=
      List.mem_map_of_mem hchunk
    have hcovers : Covers (manifest.placed chunk)
        (manifest.offset chunk.1 + position) :=
      ⟨Nat.le_add_right _ _, Nat.add_lt_add_left hposition _⟩
    have hbyte :=
      @getElem?_writeAll_inside base _ hapart _ hmem _ hcovers
    have hplaced : (manifest.placed chunk).1 = manifest.offset chunk.1 := rfl
    rw [hfile, hbyte, hplaced, Nat.add_sub_cancel_left]
    rfl
  · intro position hposition houtside
    rw [hfile]
    apply getElem?_writeAll_outside hposition
    intro write hwrite
    obtain ⟨chunk, hchunk, rfl⟩ := List.mem_map.mp hwrite
    exact houtside chunk hchunk

namespace DirectDiskRun

/-- The old file holds five bytes. -/
def fresh : DirectDiskRun where
  receiver := .setup .acceptBi
  disk := { file := [9, 9, 9, 9, 9], cursor := 0, writes := [] }
  opened := none
  accepted := []
  completed := false

theorem starts_fresh : fresh.Starts directDiskKind := ⟨rfl, rfl, rfl, rfl⟩

/-- A fresh transfer up to its receive loop. -/
def begins (manifest : FileManifest) : List DiskRunEvent :=
  [.receiver .proceed, .receiver (.received (.ok (.manifest manifest))),
      .receiver (.lookup (fun _ => false) fun _ => .absent)] ++
    List.replicate 6 (.receiver .proceed)

def twoChunks : FileManifest :=
  { buildManifest sampleSource with
    totalSize := 4, chunkSize := 2, chunkCount := 2
    totalSize_lt := by decide, chunkSize_lt := by decide
    chunkCount_lt := by decide }

/-- The second chunk arrives while the buffer of the first one is under way, and
its copy seeks once that has landed. -/
def inTurn : List DiskRunEvent :=
  begins twoChunks ++
    [.frame (chunkFrame lookupNoise 0 [1, 2]).bytes, .receiver .proceed,
      .receiver .proceed, .disk 0 .seeks, .disk 0 (.gives 2),
      .disk 0 (.lands 1), .disk 0 .returns,
      .frame (chunkFrame lookupNoise 1 [3, 4]).bytes, .receiver .proceed,
      .receiver .proceed, .disk 0 (.lands 1), .disk 1 .seeks,
      .disk 1 (.gives 2), .disk 1 (.lands 2), .disk 1 .returns] ++
    List.replicate 4 (.receiver .proceed)

end DirectDiskRun

theorem complete_file_holds_chunks_sample :
    ∃ s, (DirectDiskRun.machine tagRead ['d']).runFrom DirectDiskRun.fresh
        DirectDiskRun.inTurn = some s ∧
      s.completed = true ∧ s.accepted = [(0, [1, 2]), (1, [3, 4])] ∧
      ∃ manifest base, s.opened = some (manifest, base) ∧
        s.disk.file = writeAll base (s.accepted.map manifest.placed) := by
  have hrun : ((DirectDiskRun.machine tagRead ['d']).runFrom
      DirectDiskRun.fresh DirectDiskRun.inTurn).map
        (fun s => (s.completed, s.accepted)) =
          some (true, [(0, [1, 2]), (1, [3, 4])]) := by
    decide +kernel
  have hmeets : (DirectDiskRun.machine tagRead ['d']).Meets
      DirectDiskRun.Undisturbed DirectDiskRun.fresh
      DirectDiskRun.inTurn := by
    decide +kernel
  obtain ⟨s, hs, hsample⟩ := Option.map_eq_some_iff.mp hrun
  simp only [Prod.mk.injEq] at hsample
  have hreach : ((DirectDiskRun.machine tagRead ['d']).restrict
      DirectDiskRun.Undisturbed).Reachable s :=
    ⟨DirectDiskRun.fresh, DirectDiskRun.starts_fresh,
      Machine.leads_restrict_of_runFrom hs hmeets⟩
  obtain ⟨manifest, base, hopened, hfile, _⟩ :=
    complete_file_holds_chunks tagRead ['d'] hreach hsample.1
  exact ⟨s, hs, hsample.1, hsample.2, manifest, base, hopened, hfile⟩

namespace DirectDiskRun

/-- The copy for the second chunk seeks while the buffer of the first one is
under way, which then lands in the place of the second. -/
def overtaken : List DiskRunEvent :=
  begins twoChunks ++
    [.frame (chunkFrame lookupNoise 0 [1, 2]).bytes, .receiver .proceed,
      .receiver .proceed, .disk 0 .seeks, .disk 0 (.gives 2), .disk 0 .returns,
      .frame (chunkFrame lookupNoise 1 [3, 4]).bytes, .receiver .proceed,
      .receiver .proceed, .disk 1 .seeks, .disk 0 (.lands 2),
      .disk 1 (.gives 2), .disk 1 (.lands 2), .disk 1 .returns] ++
    List.replicate 4 (.receiver .proceed)

end DirectDiskRun

/-- Without the condition `Complete` is sent over a file that holds no chunk at
its place. -/
theorem overtaken_buffer_spoils_file :
    ∃ s, (DirectDiskRun.machine tagRead ['d']).Reachable s ∧
      s.completed = true ∧ s.accepted = [(0, [1, 2]), (1, [3, 4])] ∧
      s.disk.file = [0, 0, 1, 2, 3, 4] := by
  have hrun : ((DirectDiskRun.machine tagRead ['d']).runFrom
      DirectDiskRun.fresh DirectDiskRun.overtaken).map
        (fun s => (s.completed, s.accepted, s.disk.file)) =
          some (true, [(0, [1, 2]), (1, [3, 4])], [0, 0, 1, 2, 3, 4]) := by
    decide +kernel
  obtain ⟨s, hs, hsample⟩ := Option.map_eq_some_iff.mp hrun
  simp only [Prod.mk.injEq] at hsample
  exact ⟨s, Machine.Reachable.of_runFrom DirectDiskRun.starts_fresh hs,
    hsample⟩

/-! ## The relay receiver -/

abbrev RelayDiskRun := DiskRun RelayLoop

namespace RelayDiskRun

variable {read : ℕ → Bytes → Option Bytes}
  {decode : Bytes → Option ControlMessage} {outputDir : RawPath}
  {s t : RelayDiskRun}

/-- The one handle seeks only when its last buffer has landed. -/
theorem seeksQuiet {event : DiskRunEvent}
    (hnext : DiskRun.next relayDiskKind read decode outputDir s event =
      some t) : s.SeeksQuiet event := by
  cases event with
  | disk number event =>
      cases event with
      | seeks =>
          obtain ⟨disk, hdisk, _⟩ := Option.map_eq_some_iff.mp hnext
          have hclean := (DiskRun.nextDisk_cases hdisk).2 rfl rfl
          exact fun write hwrite => (hclean write hwrite).1
      | _ => exact True.intro
  | _ => exact True.intro

theorem booked_of_reachable
    (hreach : (DiskRun.machine relayDiskKind read decode
      outputDir).Reachable s) : s.Booked relayDiskKind := by
  apply hreach.invariant
  · intro s₀ hstart
    have hstart : s₀.Starts relayDiskKind := hstart
    exact hstart.booked relayDiskKind_laws
  · intro u event v hbooked hnext
    exact hbooked.step relayDiskKind_laws (seeksQuiet hnext) hnext

end RelayDiskRun

/-- All writes but the last are in the file as a whole. -/
theorem DiskRun.Finished.landed {s : RelayDiskRun} {manifest : FileManifest}
    {base : Bytes} (hfinished : s.Finished relayDiskKind manifest base)
    {before : List Write} {last : Write}
    (hwrites : s.disk.writes = before ++ [last]) :
    ∀ write ∈ before, write.landed = write.bytes.length := by
  have hpatient := hfinished.patient rfl
  unfold SharedFile.Patient at hpatient
  rw [hwrites] at hpatient
  obtain ⟨_, _, hcross⟩ := List.pairwise_append.mp hpatient
  have hlast : last ∈ s.disk.writes := by
    rw [hwrites]
    exact List.mem_append_right _ (List.mem_singleton_self last)
  intro write hwrite
  exact hcross write hwrite last (List.mem_singleton_self last)
    (Or.inr (hfinished.returned last hlast))

/-- In every run of the relay receiver, once `Complete` is sent the file is what
plain writes of the accepted chunks make of it, but for the end of the last one,
which is there as well unless its buffer is under way or has failed. -/
theorem relay_complete_file (read : ℕ → Bytes → Option Bytes)
    (decode : Bytes → Option ControlMessage) (outputDir : RawPath)
    {s : RelayDiskRun}
    (hreach : (DiskRun.machine relayDiskKind read decode
      outputDir).Reachable s)
    (hcompleted : s.completed = true) :
    ∃ manifest base, s.opened = some (manifest, base) ∧
      (s.accepted = [] ∧ s.disk.file = base ∨
        ∃ earlier index plaintext landed,
          s.accepted = earlier ++ [(index, plaintext)] ∧
          landed ≤ plaintext.length ∧
          (s.disk.Clean → landed = plaintext.length) ∧
          s.disk.file = writeAll base (earlier.map manifest.placed ++
            [(manifest.offset index, plaintext.take landed)])) := by
  obtain ⟨manifest, base, hfinished⟩ :=
    (RelayDiskRun.booked_of_reachable hreach).completed hcompleted
  have hfile := hfinished.settled.file
  have hplaced := hfinished.placed
  refine ⟨manifest, base, hfinished.opened, ?_⟩
  rcases List.eq_nil_or_concat s.disk.writes with
    hnil | ⟨before, last, hwrites⟩
  · rw [hnil, List.map_nil] at hplaced
    rw [hnil] at hfile
    exact Or.inl ⟨List.map_eq_nil_iff.mp hplaced.symm, hfile⟩
  · rw [List.concat_eq_append] at hwrites
    have hmem : last ∈ s.disk.writes := by
      rw [hwrites]
      exact List.mem_append_right _ (List.mem_singleton_self last)
    have hcounted := hfinished.settled.counted last hmem
    have hlanded := hfinished.landed hwrites
    have hbefore : before.map Write.written =
        before.map fun write => (write.place, write.bytes) := by
      apply List.map_congr_left
      intro write hwrite
      unfold Write.written
      rw [hlanded write hwrite, List.take_length]
    rw [hwrites, List.map_append, List.map_singleton] at hplaced
    obtain ⟨earlier, chunks, haccepted, hearlier, hchunks⟩ :=
      List.map_eq_append_iff.mp hplaced.symm
    obtain ⟨⟨index, plaintext⟩, hchunk, hsame⟩ :=
      List.map_eq_singleton_iff.mp hchunks
    have hpair : manifest.offset index = last.place ∧
        plaintext = last.bytes := Prod.mk.inj hsame
    obtain ⟨hplace, hbytes⟩ := hpair
    refine Or.inr ⟨earlier, index, plaintext, last.landed, ?_, ?_, ?_, ?_⟩
    · rw [haccepted, hchunk]
    · rw [hbytes]
      exact hcounted.landed.trans hcounted.handed
    · intro hclean
      rw [hbytes]
      exact hfinished.settled.landed_of_clean hclean hmem
        (hfinished.returned last hmem)
    · rw [hfile, hwrites, List.map_append, List.map_singleton, hbefore,
        hearlier, hplace, hbytes]
      rfl

namespace RelayDiskRun

def fresh : RelayDiskRun where
  receiver := .setup .recvManifest
  disk := { file := [9, 9, 9, 9, 9], cursor := 0, writes := [] }
  opened := none
  accepted := []
  completed := false

theorem starts_fresh : fresh.Starts relayDiskKind := ⟨rfl, rfl, rfl, rfl⟩

def arrives (index : ℕ) (plaintext : Bytes) : DiskRunEvent :=
  .frame (toBe 1 1 ++ (chunkFrame lookupNoise index plaintext).bytes)

/-- The second half of the last chunk is under way when `Complete` is sent. -/
def endUnderWay : List DiskRunEvent :=
  [.receiver (.received (.ok (.manifest DirectDiskRun.twoChunks))),
      .receiver (.lookup (fun _ => false) fun _ => .absent)] ++
    List.replicate 6 (.receiver .proceed) ++
    [arrives 0 [1, 2], .disk 0 .seeks, .disk 0 (.gives 2), .disk 0 .returns,
      .receiver .proceed, .receiver .proceed, arrives 1 [3, 4],
      .disk 0 (.lands 2), .disk 1 .seeks, .disk 1 (.gives 2),
      .disk 1 (.lands 1), .disk 1 .returns] ++
    List.replicate 4 (.receiver .proceed)

end RelayDiskRun

theorem relay_complete_file_sample :
    ∃ s, (DiskRun.machine relayDiskKind tagRead (fun _ => none) ['d']).runFrom
        RelayDiskRun.fresh RelayDiskRun.endUnderWay = some s ∧
      s.completed = true ∧ s.disk.file = [1, 2, 3, 0] ∧
      ∃ manifest base, s.opened = some (manifest, base) ∧
        (s.accepted = [] ∧ s.disk.file = base ∨
          ∃ earlier index plaintext landed,
            s.accepted = earlier ++ [(index, plaintext)] ∧
            landed ≤ plaintext.length ∧
            (s.disk.Clean → landed = plaintext.length) ∧
            s.disk.file = writeAll base (earlier.map manifest.placed ++
              [(manifest.offset index, plaintext.take landed)])) := by
  have hrun : ((DiskRun.machine relayDiskKind tagRead (fun _ => none)
      ['d']).runFrom RelayDiskRun.fresh RelayDiskRun.endUnderWay).map
        (fun s => (s.completed, s.disk.file)) =
          some (true, [1, 2, 3, 0]) := by
    decide +kernel
  obtain ⟨s, hs, hsample⟩ := Option.map_eq_some_iff.mp hrun
  simp only [Prod.mk.injEq] at hsample
  have hreach := Machine.Reachable.of_runFrom RelayDiskRun.starts_fresh hs
  exact ⟨s, hs, hsample.1, hsample.2,
    relay_complete_file tagRead (fun _ => none) ['d'] hreach hsample.1⟩

end P2pShare
