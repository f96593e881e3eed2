import P2pShare.RandomAccessFile
import Mathlib.Logic.Function.Basic
import Mathlib.Tactic.Common

/-!
# Files and their names

A directory gives each name at most one file.  Whoever has opened a file keeps
writing into it after its name is removed, and a file created under the name
later is another one.
-/

namespace FileTable

open ByteStream RandomAccessFile

/-- The files have numbers, those below `used` have been given out, and no file
has two names. -/
structure Directory (Name : Type*) where
  file : Name → Option ℕ
  content : ℕ → Bytes
  used : ℕ
  file_lt : ∀ {name number}, file name = some number → number < used
  file_inj : ∀ {name other number}, file name = some number →
    file other = some number → name = other

namespace Directory

variable {Name : Type*} (directory : Directory Name)

def read (name : Name) : Option Bytes :=
  (directory.file name).map directory.content

def put (number : ℕ) (bytes : Bytes) : Directory Name where
  file := directory.file
  content := Function.update directory.content number bytes
  used := directory.used
  file_lt := directory.file_lt
  file_inj := directory.file_inj

/-- Write at a place of an open file. -/
def write (number place : ℕ) (bytes : Bytes) : Directory Name :=
  directory.put number (writeAt (directory.content number) place bytes)

/-- The file has its content still, and no name it did not have. -/
structure Keeps (directory made : Directory Name) (file : ℕ) : Prop where
  content : made.content file = directory.content file
  used_le : directory.used ≤ made.used
  file_of : ∀ name, made.file name = some file → directory.file name = some file

section Writing

variable {directory} {name : Name} {number place : ℕ} {bytes : Bytes}

@[simp] theorem file_write : (directory.write number place bytes).file =
    directory.file := rfl

theorem content_write_self :
    (directory.write number place bytes).content number =
      writeAt (directory.content number) place bytes :=
  Function.update_self ..

theorem content_write_of_ne {file : ℕ} (hfile : file ≠ number) :
    (directory.write number place bytes).content file =
      directory.content file :=
  Function.update_of_ne hfile ..

/-- A write is read under the name of the file and nowhere else. -/
theorem read_write_of_file (hname : directory.file name = some number) :
    (directory.write number place bytes).read name =
      some (writeAt (directory.content number) place bytes) := by
  unfold read
  rw [file_write, hname, Option.map_some, content_write_self]

theorem read_write_of_ne (hname : directory.file name ≠ some number) :
    (directory.write number place bytes).read name = directory.read name := by
  unfold read
  rw [file_write]
  cases hfile : directory.file name with
  | none => rfl
  | some file =>
      rw [hfile] at hname
      have hne : file ≠ number := fun h => hname (congrArg some h)
      rw [Option.map_some, Option.map_some, content_write_of_ne hne]

theorem keeps_write {file : ℕ} (hfile : file ≠ number) :
    directory.Keeps (directory.write number place bytes) file where
  content := content_write_of_ne hfile
  used_le := Nat.le_refl _
  file_of := fun _ hname => hname

end Writing

variable [DecidableEq Name]

/-- The name gets a new file. -/
def link (name : Name) : Directory Name where
  file := Function.update directory.file name (some directory.used)
  content := directory.content
  used := directory.used + 1
  file_lt := by
    intro other number hother
    by_cases hsame : other = name
    · subst other
      rw [Function.update_self, Option.some.injEq] at hother
      omega
    · rw [Function.update_of_ne hsame] at hother
      exact Nat.lt_succ_of_lt (directory.file_lt hother)
  file_inj := by
    intro first second number hfirst hsecond
    by_cases hone : first = name
    · by_cases htwo : second = name
      · exact hone.trans htwo.symm
      · subst first
        rw [Function.update_self, Option.some.injEq] at hfirst
        rw [Function.update_of_ne htwo] at hsecond
        have hlow := directory.file_lt hsecond
        omega
    · rw [Function.update_of_ne hone] at hfirst
      by_cases htwo : second = name
      · subst second
        rw [Function.update_self, Option.some.injEq] at hsecond
        have hlow := directory.file_lt hfirst
        omega
      · rw [Function.update_of_ne htwo] at hsecond
        exact directory.file_inj hfirst hsecond

/-- Open a file for writing, which empties it or creates it. -/
def create (name : Name) : Directory Name × ℕ :=
  match directory.file name with
  | some number => (directory.put number [], number)
  | none => ((directory.link name).put directory.used [], directory.used)

def unlink (name : Name) : Directory Name where
  file := Function.update directory.file name none
  content := directory.content
  used := directory.used
  file_lt := by
    intro other number hother
    by_cases hsame : other = name
    · subst other
      rw [Function.update_self] at hother
      contradiction
    · rw [Function.update_of_ne hsame] at hother
      exact directory.file_lt hother
  file_inj := by
    intro first second number hfirst hsecond
    by_cases hone : first = name
    · subst first
      rw [Function.update_self] at hfirst
      contradiction
    · by_cases htwo : second = name
      · subst second
        rw [Function.update_self] at hsecond
        contradiction
      · rw [Function.update_of_ne hone] at hfirst
        rw [Function.update_of_ne htwo] at hsecond
        exact directory.file_inj hfirst hsecond

/-- The directory without files. -/
def empty (Name : Type*) : Directory Name where
  file := fun _ => none
  content := fun _ => []
  used := 0
  file_lt := fun hname => by contradiction
  file_inj := fun hname => by contradiction

section Removing

variable {directory} {name other : Name}

theorem read_unlink_self : (directory.unlink name).read name = none := by
  unfold read unlink
  dsimp only
  rw [Function.update_self, Option.map_none]

theorem read_unlink_of_ne (hother : other ≠ name) :
    (directory.unlink name).read other = directory.read other := by
  unfold read unlink
  dsimp only
  rw [Function.update_of_ne hother]

theorem file_unlink : (directory.unlink name).file =
    Function.update directory.file name none := rfl

end Removing

/-- What opening a file for writing does. -/
structure Created (directory : Directory Name) (name : Name)
    (made : Directory Name) (number : ℕ) : Prop where
  file : made.file = Function.update directory.file name (some number)
  content : made.content = Function.update directory.content number []
  used_le : directory.used ≤ made.used
  number_lt : number < made.used
  known : directory.file name = some number ∨
    directory.file name = none ∧ number = directory.used

variable {directory} {name other : Name} {made : Directory Name} {number : ℕ}

theorem create_created (hcreate : directory.create name = (made, number)) :
    directory.Created name made number := by
  unfold create at hcreate
  split at hcreate
  · next found hfound =>
      simp only [Prod.mk.injEq] at hcreate
      obtain ⟨rfl, rfl⟩ := hcreate
      have hsame : directory.file =
          Function.update directory.file name (some found) := by
        rw [← hfound, Function.update_eq_self]
      exact ⟨hsame, rfl, Nat.le_refl _, directory.file_lt hfound, .inl hfound⟩
  · next hnone =>
      simp only [Prod.mk.injEq] at hcreate
      obtain ⟨rfl, rfl⟩ := hcreate
      exact ⟨rfl, rfl, Nat.le_succ _, Nat.lt_succ_self _, .inr ⟨hnone, rfl⟩⟩

theorem Created.read_self (hmade : directory.Created name made number) :
    made.read name = some [] := by
  unfold read
  rw [hmade.file, Function.update_self, Option.map_some, hmade.content,
    Function.update_self]

/-- No other name has the file. -/
theorem Created.file_ne (hmade : directory.Created name made number)
    (hother : other ≠ name) : directory.file other ≠ some number := by
  intro hfile
  rcases hmade.known with hknown | ⟨_, rfl⟩
  · exact hother (directory.file_inj hfile hknown)
  · exact absurd (directory.file_lt hfile) (Nat.lt_irrefl _)

theorem Created.read_of_ne (hmade : directory.Created name made number)
    (hother : other ≠ name) : made.read other = directory.read other := by
  have hne := hmade.file_ne hother
  unfold read
  rw [hmade.file, Function.update_of_ne hother, hmade.content]
  cases hfile : directory.file other with
  | none => rfl
  | some file =>
      rw [hfile] at hne
      have hnumber : file ≠ number := fun h => hne (congrArg some h)
      rw [Option.map_some, Option.map_some, Function.update_of_ne hnumber]

/-- A file that was given out before and is not the one that the name has keeps
its name. -/
theorem Created.file_iff (hmade : directory.Created name made number)
    {file : ℕ} (hlt : file < directory.used)
    (hfile : directory.file name ≠ some file) :
    made.file other = some file ↔ directory.file other = some file := by
  rw [hmade.file]
  by_cases hother : other = name
  · subst other
    rw [Function.update_self]
    constructor
    · intro hsame
      cases hsame
      rcases hmade.known with hknown | ⟨_, rfl⟩
      · exact absurd hknown hfile
      · exact absurd hlt (Nat.lt_irrefl _)
    · intro hsame
      exact absurd hsame hfile
  · rw [Function.update_of_ne hother]

theorem Created.content_of_ne (hmade : directory.Created name made number)
    {file : ℕ} (hlt : file < directory.used)
    (hfile : directory.file name ≠ some file) :
    made.content file = directory.content file := by
  have hne : file ≠ number := by
    rintro rfl
    rcases hmade.known with hknown | ⟨_, rfl⟩
    · exact hfile hknown
    · exact absurd hlt (Nat.lt_irrefl _)
  rw [hmade.content, Function.update_of_ne hne]

theorem Created.keeps (hmade : directory.Created name made number) {file : ℕ}
    (hlt : file < directory.used) (hfile : directory.file name ≠ some file) :
    directory.Keeps made file where
  content := hmade.content_of_ne hlt hfile
  used_le := hmade.used_le
  file_of := fun _ => (hmade.file_iff hlt hfile).mp

theorem keeps_unlink (file : ℕ) :
    directory.Keeps (directory.unlink name) file where
  content := rfl
  used_le := Nat.le_refl _
  file_of := by
    intro other hother
    rw [file_unlink] at hother
    by_cases hsame : other = name
    · rw [hsame, Function.update_self] at hother
      contradiction
    · rw [Function.update_of_ne hsame] at hother
      exact hother

end Directory

end FileTable
