import P2pShare.RandomAccessFile
import P2pShare.TransitionMachine

/-!
# Handles that share a cursor

The copies of a file handle share one cursor.  A write through a copy seeks and
then gives its bytes away in buffers, each of which the background writes at the
cursor of the moment, in one or more parts.  The next buffer waits for the one
before it and sees its error; nothing waits for the last one.

As long as no copy seeks while a buffer is under way, the parts of each write
land one behind the other at the place of that write.
-/

namespace SharedCursor

open ByteStream RandomAccessFile

inductive WriteStage where
  | seeking
  | giving
  | returned (ok : Bool)
  deriving DecidableEq

/-- The first `handed` bytes were given away and the first `landed` are in the
file; `lost` says that the buffer given last has failed. -/
structure Write where
  place : ℕ
  bytes : Bytes
  stage : WriteStage
  handed : ℕ
  landed : ℕ
  lost : Bool
  deriving DecidableEq

namespace Write

def new (place : ℕ) (bytes : Bytes) : Write where
  place := place
  bytes := bytes
  stage := .seeking
  handed := 0
  landed := 0
  lost := false

def UnderWay (write : Write) : Prop :=
  write.landed < write.handed ∧ write.lost = false

instance (write : Write) : Decidable write.UnderWay :=
  inferInstanceAs (Decidable (_ ∧ _))

def Started (write : Write) : Prop :=
  write.stage = .giving ∨ 0 < write.handed

/-- The part of the write that is in the file. -/
def written (write : Write) : ℕ × Bytes :=
  (write.place, write.bytes.take write.landed)

end Write

/-- The writes in the order in which their handles were copied. -/
structure SharedFile where
  file : Bytes
  cursor : ℕ
  writes : List Write
  deriving DecidableEq

inductive DiskEvent where
  | seeks
  | gives (count : ℕ)
  | lands (count : ℕ)
  | loses
  | returns
  | fails
  deriving DecidableEq

namespace SharedFile

variable (disk : SharedFile)

def copy (place : ℕ) (bytes : Bytes) : SharedFile :=
  { disk with writes := disk.writes ++ [.new place bytes] }

/-- What becomes of the cursor, the file and the write that the event is
about. -/
def step (write : Write) : DiskEvent → Option (Bytes × ℕ × Write)
  | .seeks =>
      if write.stage = .seeking then
        some (disk.file, write.place, { write with stage := .giving })
      else none
  | .gives count =>
      if write.stage = .giving ∧ write.landed = write.handed ∧ 0 < count ∧
          write.handed + count ≤ write.bytes.length then
        some (disk.file, disk.cursor,
          { write with handed := write.handed + count })
      else none
  | .lands count =>
      if write.UnderWay ∧ 0 < count ∧ write.landed + count ≤ write.handed then
        some (writeAt disk.file disk.cursor
            ((write.bytes.drop write.landed).take count),
          disk.cursor + count, { write with landed := write.landed + count })
      else none
  | .loses =>
      if write.UnderWay then
        some (disk.file, disk.cursor, { write with lost := true })
      else none
  | .returns =>
      if write.stage = .giving ∧ write.handed = write.bytes.length then
        some (disk.file, disk.cursor, { write with stage := .returned true })
      else none
  | .fails =>
      if write.stage = .seeking ∨ write.stage = .giving ∧ write.lost = true ∧
          write.handed < write.bytes.length then
        some (disk.file, disk.cursor, { write with stage := .returned false })
      else none

def next (number : ℕ) (event : DiskEvent) : Option SharedFile :=
  (disk.writes[number]?).bind fun write =>
    (disk.step write event).map fun (file, cursor, write) =>
      { file, cursor, writes := disk.writes.set number write }

/-- No buffer is under way. -/
def Quiet : Prop := ∀ write ∈ disk.writes, ¬ write.UnderWay

/-- No buffer is under way, and none has failed. -/
def Clean : Prop := ∀ write ∈ disk.writes, ¬ write.UnderWay ∧ write.lost = false

instance : Decidable disk.Quiet :=
  inferInstanceAs (Decidable (∀ write ∈ disk.writes, ¬ write.UnderWay))

instance : Decidable disk.Clean :=
  inferInstanceAs
    (Decidable (∀ write ∈ disk.writes, ¬ write.UnderWay ∧ write.lost = false))

/-- Every write has returned without an error. -/
def Returned : Prop := ∀ write ∈ disk.writes, write.stage = .returned true

end SharedFile

/-! ## The order of the writes -/

/-- The earlier of two writes returned before the later one began, and no
buffer of it was under way when the later one sought its place. -/
def Ordered (earlier later : Write) : Prop :=
  (∃ ok, earlier.stage = .returned ok) ∧
    (later.Started → ¬ earlier.UnderWay)

structure Write.Counted (write : Write) : Prop where
  landed : write.landed ≤ write.handed
  handed : write.handed ≤ write.bytes.length
  seeking : write.stage = .seeking → write.handed = 0
  returned : write.stage = .returned true →
    write.handed = write.bytes.length

/-- The file holds what has landed, each part at its own place. -/
structure SharedFile.Settled (base : Bytes) (disk : SharedFile) : Prop where
  file : disk.file = writeAll base (disk.writes.map Write.written)
  counted : ∀ write ∈ disk.writes, write.Counted
  ordered : disk.writes.Pairwise Ordered
  cursor : ∀ write ∈ disk.writes, write.stage = .giving ∨ write.UnderWay →
    disk.cursor = write.place + write.landed

theorem exists_split {α : Type*} {values : List α} {number : ℕ} {value : α}
    (hvalue : values[number]? = some value) :
    ∃ before after, values = before ++ value :: after ∧
      ∀ other, values.set number other = before ++ other :: after := by
  obtain ⟨hnumber, hget⟩ := List.getElem?_eq_some_iff.mp hvalue
  refine ⟨values.take number, values.drop (number + 1), ?_, ?_⟩
  · rw [← hget, List.getElem_cons_drop, List.take_append_drop]
  · intro other
    exact List.set_eq_take_cons_drop other hnumber

/-- A step of a copy, with the writes before and behind it. -/
theorem SharedFile.next_split {disk next : SharedFile} {number : ℕ} {event : DiskEvent}
    (hnext : disk.next number event = some next) :
    ∃ before write after moved,
      disk.writes = before ++ write :: after ∧
        next.writes = before ++ moved :: after ∧
        disk.step write event = some (next.file, next.cursor, moved) := by
  unfold SharedFile.next at hnext
  obtain ⟨write, hwrite, hmap⟩ := Option.bind_eq_some_iff.mp hnext
  obtain ⟨⟨file, cursor, moved⟩, hstep, hresult⟩ :=
    Option.map_eq_some_iff.mp hmap
  obtain ⟨before, after, hsplit, hset⟩ := exists_split hwrite
  subst hresult
  exact ⟨before, write, after, moved, hsplit, hset moved, hstep⟩

section Settled

variable {base : Bytes} {disk next : SharedFile} {before after : List Write}
  {write moved : Write}

theorem mem_of_split {values : List Write}
    (hvalues : values = before ++ write :: after) :
    write ∈ values ∧ (∀ other ∈ before, other ∈ values) ∧
      ∀ other ∈ after, other ∈ values := by
  subst hvalues
  exact ⟨List.mem_append_right _ List.mem_cons_self,
    fun other hother => List.mem_append_left _ hother,
    fun other hother =>
      List.mem_append_right _ (List.mem_cons_of_mem _ hother)⟩

theorem SharedFile.Settled.ordered_before (hsettled : disk.Settled base)
    (hwrites : disk.writes = before ++ write :: after) :
    ∀ earlier ∈ before, Ordered earlier write := by
  have hordered := hsettled.ordered
  rw [hwrites] at hordered
  obtain ⟨_, _, hcross⟩ := List.pairwise_append.mp hordered
  exact fun earlier hearlier => hcross earlier hearlier write List.mem_cons_self

theorem SharedFile.Settled.ordered_after (hsettled : disk.Settled base)
    (hwrites : disk.writes = before ++ write :: after) :
    ∀ later ∈ after, Ordered write later := by
  have hordered := hsettled.ordered
  rw [hwrites] at hordered
  obtain ⟨_, hrest, _⟩ := List.pairwise_append.mp hordered
  exact (List.pairwise_cons.mp hrest).1

/-- A write that has not returned is the last one. -/
theorem SharedFile.Settled.after_eq_nil (hsettled : disk.Settled base)
    (hwrites : disk.writes = before ++ write :: after)
    (hstage : ∀ ok, write.stage ≠ .returned ok) : after = [] := by
  cases after with
  | nil => rfl
  | cons later rest =>
      obtain ⟨⟨ok, hreturned⟩, _⟩ :=
        hsettled.ordered_after hwrites later List.mem_cons_self
      exact absurd hreturned (hstage ok)

/-- One write moves on, in its place among the others. -/
theorem SharedFile.Settled.move (hsettled : disk.Settled base)
    (hwrites : disk.writes = before ++ write :: after)
    (hmoved : next.writes = before ++ moved :: after)
    (hfile : next.file = writeAll base (next.writes.map Write.written))
    (hcounted : moved.Counted)
    (hbefore : ∀ earlier ∈ before, Ordered earlier write →
      Ordered earlier moved)
    (hafter : ∀ later ∈ after, Ordered write later → Ordered moved later)
    (hcursor : ∀ other ∈ next.writes,
      other.stage = .giving ∨ other.UnderWay →
        next.cursor = other.place + other.landed) :
    next.Settled base where
  file := hfile
  counted := by
    obtain ⟨_, hold, hrest⟩ := mem_of_split hwrites
    rw [hmoved]
    intro other hother
    rcases List.mem_append.mp hother with hother | hother
    · exact hsettled.counted other (hold other hother)
    · rcases List.mem_cons.mp hother with rfl | hother
      · exact hcounted
      · exact hsettled.counted other (hrest other hother)
  ordered := by
    have hordered := hsettled.ordered
    rw [hwrites] at hordered
    obtain ⟨hold, hrest, hcross⟩ := List.pairwise_append.mp hordered
    obtain ⟨hbehind, hlast⟩ := List.pairwise_cons.mp hrest
    rw [hmoved]
    refine List.pairwise_append.mpr ⟨hold, List.pairwise_cons.mpr
      ⟨fun later hlater => hafter later hlater (hbehind later hlater), hlast⟩,
      ?_⟩
    intro earlier hearlier later hlater
    rcases List.mem_cons.mp hlater with rfl | hlater
    · exact hbefore earlier hearlier
        (hcross earlier hearlier write List.mem_cons_self)
    · exact hcross earlier hearlier later (List.mem_cons_of_mem _ hlater)
  cursor := hcursor

/-- The cursor and the file stay, and no other write can notice. -/
theorem SharedFile.Settled.moveAside (hsettled : disk.Settled base)
    (hwrites : disk.writes = before ++ write :: after)
    (hmoved : next.writes = before ++ moved :: after)
    (hfile : next.file = disk.file) (hcursor : next.cursor = disk.cursor)
    (hplace : moved.place = write.place) (hlanded : moved.landed = write.landed)
    (hbytes : moved.bytes = write.bytes) (hcounted : moved.Counted)
    (hstarted : moved.Started → write.Started)
    (hactive : moved.stage = .giving ∨ moved.UnderWay →
      write.stage = .giving ∨ write.UnderWay)
    (hafter : ∀ later ∈ after, Ordered write later → Ordered moved later) :
    next.Settled base := by
  obtain ⟨hmem, hold, hrest⟩ := mem_of_split hwrites
  have hwritten : moved.written = write.written := by
    unfold Write.written
    rw [hplace, hlanded, hbytes]
  apply hsettled.move hwrites hmoved
  · rw [hfile, hsettled.file, hwrites, hmoved, List.map_append,
      List.map_append, List.map_cons, List.map_cons, hwritten]
  · exact hcounted
  · intro earlier _ hordered
    exact ⟨hordered.1, fun hmovedStarted => hordered.2 (hstarted hmovedStarted)⟩
  · exact hafter
  · intro other hother hgoing
    rw [hmoved] at hother
    rw [hcursor]
    rcases List.mem_append.mp hother with hother | hother
    · exact hsettled.cursor other (hold other hother) hgoing
    · rcases List.mem_cons.mp hother with rfl | hother
      · rw [hplace, hlanded]
        exact hsettled.cursor write hmem (hactive hgoing)
      · exact hsettled.cursor other (hrest other hother) hgoing

theorem SharedFile.Settled.seeks (hsettled : disk.Settled base)
    (hquiet : disk.Quiet) (hwrites : disk.writes = before ++ write :: after)
    (hmoved : next.writes = before ++ moved :: after)
    (hstep : disk.step write .seeks = some (next.file, next.cursor, moved)) :
    next.Settled base := by
  obtain ⟨hmem, hold, _⟩ := mem_of_split hwrites
  unfold SharedFile.step at hstep
  dsimp only at hstep
  split at hstep
  next hstage =>
    simp only [Option.some.injEq, Prod.mk.injEq] at hstep
    obtain ⟨hfile, hcursor, rfl⟩ := hstep
    have hcounted := hsettled.counted write hmem
    have hhanded := hcounted.seeking hstage
    have hlast : after = [] := hsettled.after_eq_nil hwrites (by simp [hstage])
    subst hlast
    apply hsettled.move hwrites hmoved
    · rw [← hfile, hsettled.file, hwrites, hmoved]
      simp [Write.written]
    · exact ⟨hcounted.landed, hcounted.handed, by simp, by simp⟩
    · intro earlier hearlier hordered
      exact ⟨hordered.1, fun _ => hquiet earlier (hold earlier hearlier)⟩
    · simp
    · intro other hother hgoing
      rw [hmoved] at hother
      rcases List.mem_append.mp hother with hother | hother
      · obtain ⟨⟨ok, hreturned⟩, _⟩ := hsettled.ordered_before hwrites other hother
        rcases hgoing with hgiving | hunder
        · rw [hreturned] at hgiving
          contradiction
        · exact absurd hunder (hquiet other (hold other hother))
      · rw [List.mem_singleton.mp hother]
        have hlanded : write.landed = 0 := by
          have hle := hcounted.landed
          omega
        rw [← hcursor, hlanded, Nat.add_zero]
  next => contradiction

theorem SharedFile.Settled.gives (hsettled : disk.Settled base) {count : ℕ}
    (hwrites : disk.writes = before ++ write :: after)
    (hmoved : next.writes = before ++ moved :: after)
    (hstep : disk.step write (.gives count) =
      some (next.file, next.cursor, moved)) :
    next.Settled base := by
  obtain ⟨hmem, _, _⟩ := mem_of_split hwrites
  unfold SharedFile.step at hstep
  dsimp only at hstep
  split at hstep
  next hguard =>
    obtain ⟨hstage, hidle, _, hroom⟩ := hguard
    simp only [Option.some.injEq, Prod.mk.injEq] at hstep
    obtain ⟨hfile, hcursor, rfl⟩ := hstep
    have hlast : after = [] := hsettled.after_eq_nil hwrites (by simp [hstage])
    subst hlast
    apply hsettled.moveAside hwrites hmoved hfile.symm hcursor.symm rfl rfl rfl
    · exact ⟨by dsimp only; omega, hroom, by simp [hstage], by simp [hstage]⟩
    · exact fun _ => Or.inl hstage
    · exact fun _ => Or.inl hstage
    · simp
  next => contradiction

theorem SharedFile.Settled.lands (hsettled : disk.Settled base) {count : ℕ}
    (hwrites : disk.writes = before ++ write :: after)
    (hmoved : next.writes = before ++ moved :: after)
    (hstep : disk.step write (.lands count) =
      some (next.file, next.cursor, moved)) :
    next.Settled base := by
  obtain ⟨hmem, hold, hrest⟩ := mem_of_split hwrites
  unfold SharedFile.step at hstep
  dsimp only at hstep
  split at hstep
  next hguard =>
    obtain ⟨hunder, _, hroom⟩ := hguard
    simp only [Option.some.injEq, Prod.mk.injEq] at hstep
    obtain ⟨hfile, hcursor, rfl⟩ := hstep
    have hcounted := hsettled.counted write hmem
    have hplace := hsettled.cursor write hmem (Or.inr hunder)
    have hstarted : write.Started := Or.inr (by have hlt := hunder.1; omega)
    have hidle : ∀ later ∈ after, ¬ later.Started := fun later hlater hgoing =>
      (hsettled.ordered_after hwrites later hlater).2 hgoing hunder
    have hempty : ∀ other ∈ after.map Write.written, other.2 = [] := by
      intro other hother
      obtain ⟨later, hlater, rfl⟩ := List.mem_map.mp hother
      have hnone := (not_or.mp (hidle later hlater)).2
      have hlanded := (hsettled.counted later (hrest later hlater)).landed
      have hzero : later.landed = 0 := by omega
      unfold Write.written
      rw [hzero, List.take_zero]
    have htaken : (write.bytes.take write.landed).length = write.landed := by
      rw [List.length_take]
      have hhanded := hcounted.handed
      have hlanded := hcounted.landed
      omega
    apply hsettled.move hwrites hmoved
    · rw [← hfile, hsettled.file, hwrites, hmoved, hplace]
      simp only [List.map_append, List.map_cons]
      rw [writeAll_append, writeAll_append, writeAll_cons, writeAll_cons,
        writeAll_of_empty hempty, writeAll_of_empty hempty]
      unfold Write.written
      dsimp only
      have hjoin := writeAt_writeAt (writeAll base (before.map Write.written))
        write.place (write.bytes.take write.landed)
        ((write.bytes.drop write.landed).take count)
      rw [htaken] at hjoin
      rw [List.take_add]
      exact hjoin
    · exact ⟨hroom, hcounted.handed, hcounted.seeking, hcounted.returned⟩
    · exact fun _ _ hordered => hordered
    · exact fun later hlater _ =>
        ⟨(hsettled.ordered_after hwrites later hlater).1, fun hgoing =>
          absurd hgoing (hidle later hlater)⟩
    · intro other hother hgoing
      rw [hmoved] at hother
      rcases List.mem_append.mp hother with hother | hother
      · obtain ⟨⟨ok, hreturned⟩, hdone⟩ := hsettled.ordered_before hwrites other hother
        rcases hgoing with hgiving | hother'
        · rw [hreturned] at hgiving
          contradiction
        · exact absurd hother' (hdone hstarted)
      · rcases List.mem_cons.mp hother with rfl | hother
        · rw [← hcursor, hplace, Nat.add_assoc]
        · rcases hgoing with hgiving | hother'
          · exact absurd (Or.inl hgiving) (hidle other hother)
          · have hnone := (not_or.mp (hidle other hother)).2
            have hlt := hother'.1
            omega
  next => contradiction

theorem SharedFile.Settled.loses (hsettled : disk.Settled base)
    (hwrites : disk.writes = before ++ write :: after)
    (hmoved : next.writes = before ++ moved :: after)
    (hstep : disk.step write .loses = some (next.file, next.cursor, moved)) :
    next.Settled base := by
  obtain ⟨hmem, _, _⟩ := mem_of_split hwrites
  unfold SharedFile.step at hstep
  dsimp only at hstep
  split at hstep
  next hunder =>
    simp only [Option.some.injEq, Prod.mk.injEq] at hstep
    obtain ⟨hfile, hcursor, rfl⟩ := hstep
    have hcounted := hsettled.counted write hmem
    apply hsettled.moveAside hwrites hmoved hfile.symm hcursor.symm rfl rfl rfl
    · exact ⟨hcounted.landed, hcounted.handed, hcounted.seeking,
        hcounted.returned⟩
    · exact id
    · exact fun _ => Or.inr hunder
    · exact fun later _ hordered => ⟨hordered.1, fun _ hlost => by
        cases hlost.2⟩
  next => contradiction

theorem SharedFile.Settled.returns (hsettled : disk.Settled base)
    (hwrites : disk.writes = before ++ write :: after)
    (hmoved : next.writes = before ++ moved :: after)
    (hstep : disk.step write .returns = some (next.file, next.cursor, moved)) :
    next.Settled base := by
  obtain ⟨hmem, _, _⟩ := mem_of_split hwrites
  unfold SharedFile.step at hstep
  dsimp only at hstep
  split at hstep
  next hguard =>
    obtain ⟨hstage, hall⟩ := hguard
    simp only [Option.some.injEq, Prod.mk.injEq] at hstep
    obtain ⟨hfile, hcursor, rfl⟩ := hstep
    have hcounted := hsettled.counted write hmem
    apply hsettled.moveAside hwrites hmoved hfile.symm hcursor.symm rfl rfl rfl
    · exact ⟨hcounted.landed, hcounted.handed, by simp, fun _ => hall⟩
    · exact fun _ => Or.inl hstage
    · exact fun _ => Or.inl hstage
    · exact fun later _ hordered => ⟨⟨true, rfl⟩, hordered.2⟩
  next => contradiction

theorem SharedFile.Settled.fails (hsettled : disk.Settled base)
    (hwrites : disk.writes = before ++ write :: after)
    (hmoved : next.writes = before ++ moved :: after)
    (hstep : disk.step write .fails = some (next.file, next.cursor, moved)) :
    next.Settled base := by
  obtain ⟨hmem, _, _⟩ := mem_of_split hwrites
  unfold SharedFile.step at hstep
  dsimp only at hstep
  split at hstep
  next hguard =>
    simp only [Option.some.injEq, Prod.mk.injEq] at hstep
    obtain ⟨hfile, hcursor, rfl⟩ := hstep
    have hcounted := hsettled.counted write hmem
    apply hsettled.moveAside hwrites hmoved hfile.symm hcursor.symm rfl rfl rfl
    · exact ⟨hcounted.landed, hcounted.handed, by simp, by simp⟩
    · rintro (hgiving | hhanded)
      · contradiction
      · exact Or.inr hhanded
    · rintro (hgiving | hunder)
      · contradiction
      · exact Or.inr hunder
    · exact fun later _ hordered => ⟨⟨false, rfl⟩, hordered.2⟩
  next => contradiction

/-- A step keeps the order, if no copy seeks while a buffer is under way. -/
theorem SharedFile.Settled.step (hsettled : disk.Settled base) {number : ℕ}
    {event : DiskEvent} (hquiet : event = .seeks → disk.Quiet)
    (hnext : disk.next number event = some next) : next.Settled base := by
  obtain ⟨before, write, after, moved, hwrites, hmoved, hstep⟩ :=
    SharedFile.next_split hnext
  cases event with
  | seeks => exact hsettled.seeks (hquiet rfl) hwrites hmoved hstep
  | gives count => exact hsettled.gives hwrites hmoved hstep
  | lands count => exact hsettled.lands hwrites hmoved hstep
  | loses => exact hsettled.loses hwrites hmoved hstep
  | returns => exact hsettled.returns hwrites hmoved hstep
  | fails => exact hsettled.fails hwrites hmoved hstep

end Settled

section Returned

variable {base : Bytes} {disk next : SharedFile}

/-- A new copy, once every write through the others has returned. -/
theorem SharedFile.Settled.copy (hsettled : disk.Settled base)
    (hreturned : disk.Returned) (place : ℕ) (bytes : Bytes) :
    (disk.copy place bytes).Settled base where
  file := by
    have hempty : (Write.new place bytes).written = (place, []) := by
      simp [Write.written, Write.new]
    unfold SharedFile.copy
    rw [List.map_append, writeAll_append, List.map_singleton, hempty,
      writeAll_cons, writeAt_nil, writeAll_nil]
    exact hsettled.file
  counted := by
    intro write hwrite
    rcases List.mem_append.mp hwrite with hold | hnew
    · exact hsettled.counted write hold
    · rw [List.mem_singleton.mp hnew]
      exact ⟨Nat.le_refl _, Nat.zero_le _, fun _ => rfl, fun h => by cases h⟩
  ordered := by
    refine List.pairwise_append.mpr
      ⟨hsettled.ordered, List.pairwise_singleton _ _, ?_⟩
    intro write hwrite other hother
    rw [List.mem_singleton.mp hother]
    refine ⟨⟨true, hreturned write hwrite⟩, ?_⟩
    rintro (hgiving | hhanded)
    · cases hgiving
    · exact absurd hhanded (Nat.lt_irrefl 0)
  cursor := by
    intro write hwrite hgoing
    rcases List.mem_append.mp hwrite with hold | hnew
    · exact hsettled.cursor write hold hgoing
    · rw [List.mem_singleton.mp hnew] at hgoing
      rcases hgoing with hgiving | hunder
      · cases hgiving
      · exact absurd hunder.1 (Nat.lt_irrefl 0)

theorem SharedFile.Settled.landed_of_clean (hsettled : disk.Settled base)
    (hclean : disk.Clean) {write : Write} (hwrite : write ∈ disk.writes)
    (hreturned : write.stage = .returned true) :
    write.landed = write.bytes.length := by
  have hcounted := hsettled.counted write hwrite
  have hhanded := hcounted.returned hreturned
  obtain ⟨hquiet, hkept⟩ := hclean write hwrite
  have hle := hcounted.landed
  by_contra hne
  exact hquiet ⟨by omega, hkept⟩

/-- Every write is in the file as a whole. -/
theorem SharedFile.Settled.file_of_clean (hsettled : disk.Settled base)
    (hreturned : disk.Returned) (hclean : disk.Clean) :
    disk.file = writeAll base
      (disk.writes.map fun write => (write.place, write.bytes)) := by
  rw [hsettled.file]
  congr 1
  apply List.map_congr_left
  intro write hwrite
  have hlanded :=
    hsettled.landed_of_clean hclean hwrite (hreturned write hwrite)
  unfold Write.written
  rw [hlanded, List.take_length]

/-- Nothing can happen any more. -/
theorem SharedFile.next_eq_none (hreturned : disk.Returned) (hclean : disk.Clean)
    (number : ℕ) (event : DiskEvent) : disk.next number event = none := by
  cases hnext : disk.next number event with
  | none => rfl
  | some next =>
      obtain ⟨before, write, after, moved, hwrites, _, hstep⟩ :=
        SharedFile.next_split hnext
      obtain ⟨hmem, _, _⟩ := mem_of_split hwrites
      have hstage := hreturned write hmem
      have hquiet := (hclean write hmem).1
      cases event <;> simp [SharedFile.step, hstage, hquiet] at hstep

/-- Neither the places nor the bytes of the writes change, and those that have
returned stay returned. -/
theorem SharedFile.step_keeps {write moved : Write} {event : DiskEvent}
    {file : Bytes} {cursor : ℕ}
    (hstep : disk.step write event = some (file, cursor, moved)) :
    moved.place = write.place ∧ moved.bytes = write.bytes ∧
      ∀ ok, write.stage = .returned ok → moved.stage = .returned ok := by
  unfold SharedFile.step at hstep
  cases event with
  | seeks =>
      dsimp only at hstep
      split at hstep
      next hstage =>
        cases hstep
        exact ⟨rfl, rfl, fun ok hok => by rw [hstage] at hok; cases hok⟩
      next => contradiction
  | gives count =>
      dsimp only at hstep
      split at hstep
      next => cases hstep; exact ⟨rfl, rfl, fun _ => id⟩
      next => contradiction
  | lands count =>
      dsimp only at hstep
      split at hstep
      next => cases hstep; exact ⟨rfl, rfl, fun _ => id⟩
      next => contradiction
  | loses =>
      dsimp only at hstep
      split at hstep
      next => cases hstep; exact ⟨rfl, rfl, fun _ => id⟩
      next => contradiction
  | returns =>
      dsimp only at hstep
      split at hstep
      next hguard =>
        cases hstep
        exact ⟨rfl, rfl, fun ok hok => by rw [hguard.1] at hok; cases hok⟩
      next => contradiction
  | fails =>
      dsimp only at hstep
      split at hstep
      next hguard =>
        cases hstep
        refine ⟨rfl, rfl, fun ok hok => ?_⟩
        rw [hok] at hguard
        rcases hguard with hseeking | ⟨hgiving, _⟩
        · cases hseeking
        · cases hgiving
      next => contradiction

theorem SharedFile.next_places {number : ℕ} {event : DiskEvent}
    (hnext : disk.next number event = some next) :
    (next.writes.map fun write => (write.place, write.bytes)) =
      disk.writes.map fun write => (write.place, write.bytes) := by
  obtain ⟨before, write, after, moved, hwrites, hmoved, hstep⟩ :=
    SharedFile.next_split hnext
  obtain ⟨hplace, hbytes, _⟩ := SharedFile.step_keeps hstep
  rw [hwrites, hmoved]
  simp only [List.map_append, List.map_cons, hplace, hbytes]

/-- All writes but the last have returned without an error. -/
def SharedFile.ReturnedBut (disk : SharedFile) : Prop :=
  ∀ write ∈ disk.writes.dropLast, write.stage = .returned true

theorem SharedFile.next_returnedBut {number : ℕ} {event : DiskEvent}
    (hreturned : disk.ReturnedBut)
    (hnext : disk.next number event = some next) : next.ReturnedBut := by
  obtain ⟨before, write, after, moved, hwrites, hmoved, hstep⟩ :=
    SharedFile.next_split hnext
  obtain ⟨_, _, hstage⟩ := SharedFile.step_keeps hstep
  unfold SharedFile.ReturnedBut at hreturned ⊢
  rw [hwrites] at hreturned
  rw [hmoved]
  rw [List.dropLast_append_of_ne_nil (List.cons_ne_nil _ _)] at hreturned ⊢
  cases after with
  | nil => exact hreturned
  | cons later rest =>
      rw [List.dropLast_cons_of_ne_nil (List.cons_ne_nil _ _)] at hreturned ⊢
      intro other hother
      rcases List.mem_append.mp hother with hother | hother
      · exact hreturned other (List.mem_append_left _ hother)
      · rcases List.mem_cons.mp hother with rfl | hother
        · exact hstage true (hreturned write
            (List.mem_append_right _ List.mem_cons_self))
        · exact hreturned other
            (List.mem_append_right _ (List.mem_cons_of_mem _ hother))

theorem SharedFile.next_returned {number : ℕ} {event : DiskEvent}
    (hreturned : disk.Returned)
    (hnext : disk.next number event = some next) : next.Returned := by
  obtain ⟨before, write, after, moved, hwrites, hmoved, hstep⟩ :=
    SharedFile.next_split hnext
  obtain ⟨_, _, hstage⟩ := SharedFile.step_keeps hstep
  obtain ⟨hmem, hold, hrest⟩ := mem_of_split hwrites
  intro other hother
  rw [hmoved] at hother
  rcases List.mem_append.mp hother with hother | hother
  · exact hreturned other (hold other hother)
  · rcases List.mem_cons.mp hother with rfl | hother
    · exact hstage true (hreturned write hmem)
    · exact hreturned other (hrest other hother)

theorem SharedFile.Returned.but (hreturned : disk.Returned) : disk.ReturnedBut :=
  fun write hwrite => hreturned write (List.dropLast_subset _ hwrite)

/-- The write made last has returned without an error, if there is one. -/
def SharedFile.LastReturned (disk : SharedFile) : Prop :=
  ∀ write ∈ disk.writes.getLast?, write.stage = .returned true

theorem SharedFile.ReturnedBut.returned (hbut : disk.ReturnedBut)
    (hlast : disk.LastReturned) : disk.Returned := by
  intro write hwrite
  rcases List.eq_nil_or_concat disk.writes with hnil | ⟨before, last, hwrites⟩
  · rw [hnil] at hwrite
    contradiction
  · rw [List.concat_eq_append] at hwrites
    unfold SharedFile.ReturnedBut at hbut
    unfold SharedFile.LastReturned at hlast
    rw [hwrites] at hbut hlast hwrite
    rcases List.mem_append.mp hwrite with hold | hnew
    · exact hbut write (by simpa using hold)
    · rw [List.mem_singleton.mp hnew]
      exact hlast last (by simp)

theorem SharedFile.copy_returnedBut (hreturned : disk.Returned) (place : ℕ)
    (bytes : Bytes) : (disk.copy place bytes).ReturnedBut := by
  unfold SharedFile.ReturnedBut SharedFile.copy
  rw [List.dropLast_concat]
  exact hreturned

/-! ## Copies that wait for each other -/

/-- A write that has sought its place found all earlier ones in the file. -/
def SharedFile.Patient (disk : SharedFile) : Prop :=
  disk.writes.Pairwise fun earlier later =>
    later.stage = .giving ∨ later.stage = .returned true →
      earlier.landed = earlier.bytes.length

theorem SharedFile.Patient.copy (hpatient : disk.Patient) (place : ℕ)
    (bytes : Bytes) : (disk.copy place bytes).Patient := by
  refine List.pairwise_append.mpr
    ⟨hpatient, List.pairwise_singleton _ _, ?_⟩
  intro earlier _ later hlater hgoing
  rw [List.mem_singleton.mp hlater] at hgoing
  rcases hgoing with hgiving | hreturned
  · cases hgiving
  · cases hreturned

theorem SharedFile.step_landed {write moved : Write} {event : DiskEvent}
    {file : Bytes} {cursor : ℕ} (hcounted : write.Counted)
    (hstep : disk.step write event = some (file, cursor, moved))
    (hfull : write.landed = write.bytes.length) :
    moved.landed = moved.bytes.length := by
  have hover : ¬ write.UnderWay := fun hunder => by
    have hlt := hunder.1
    have hle := hcounted.handed
    omega
  unfold SharedFile.step at hstep
  cases event with
  | lands count =>
      dsimp only at hstep
      split at hstep
      next hguard => exact absurd hguard.1 hover
      next => contradiction
  | _ =>
      dsimp only at hstep
      split at hstep
      next => cases hstep; exact hfull
      next => contradiction

theorem SharedFile.step_going {write moved : Write} {event : DiskEvent}
    {file : Bytes} {cursor : ℕ}
    (hstep : disk.step write event = some (file, cursor, moved))
    (hgoing : moved.stage = .giving ∨ moved.stage = .returned true) :
    event = .seeks ∨ write.stage = .giving ∨ write.stage = .returned true := by
  unfold SharedFile.step at hstep
  cases event with
  | seeks => exact Or.inl rfl
  | gives count =>
      dsimp only at hstep
      split at hstep
      next => cases hstep; exact Or.inr hgoing
      next => contradiction
  | lands count =>
      dsimp only at hstep
      split at hstep
      next => cases hstep; exact Or.inr hgoing
      next => contradiction
  | loses =>
      dsimp only at hstep
      split at hstep
      next => cases hstep; exact Or.inr hgoing
      next => contradiction
  | returns =>
      dsimp only at hstep
      split at hstep
      next hguard => exact Or.inr (Or.inl hguard.1)
      next => contradiction
  | fails =>
      dsimp only at hstep
      split at hstep
      next =>
        cases hstep
        rcases hgoing with hgiving | hreturned
        · cases hgiving
        · cases hreturned
      next => contradiction

/-- No copy seeks before the others are done. -/
theorem SharedFile.Patient.step (hpatient : disk.Patient)
    (hsettled : disk.Settled base) (hbut : disk.ReturnedBut) {number : ℕ}
    {event : DiskEvent} (hclean : event = .seeks → disk.Clean)
    (hnext : disk.next number event = some next) : next.Patient := by
  obtain ⟨before, write, after, moved, hwrites, hmoved, hstep⟩ :=
    SharedFile.next_split hnext
  obtain ⟨hmem, hold, _⟩ := mem_of_split hwrites
  unfold SharedFile.Patient at hpatient ⊢
  rw [hwrites] at hpatient
  obtain ⟨hfirst, hrest, hcross⟩ := List.pairwise_append.mp hpatient
  obtain ⟨hbehind, hlast⟩ := List.pairwise_cons.mp hrest
  rw [hmoved]
  refine List.pairwise_append.mpr
    ⟨hfirst, List.pairwise_cons.mpr ⟨?_, hlast⟩, ?_⟩
  · intro later hlater hgoing
    have hfull := hbehind later hlater hgoing
    exact SharedFile.step_landed (hsettled.counted write hmem) hstep hfull
  · intro earlier hearlier later hlater hgoing
    rcases List.mem_cons.mp hlater with rfl | hlater
    · rcases SharedFile.step_going hstep hgoing with hseeks | hgoing
      · have hbutLast : earlier ∈ disk.writes.dropLast := by
          rw [hwrites, List.dropLast_append_of_ne_nil (List.cons_ne_nil _ _)]
          exact List.mem_append_left _ hearlier
        exact hsettled.landed_of_clean (hclean hseeks)
          (hold earlier hearlier) (hbut earlier hbutLast)
      · exact hcross earlier hearlier write List.mem_cons_self hgoing
    · exact hcross earlier hearlier later (List.mem_cons_of_mem _ hlater)
        hgoing

end Returned

end SharedCursor
