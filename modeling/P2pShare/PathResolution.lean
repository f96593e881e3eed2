import Mathlib.Data.List.Basic
import Mathlib.Tactic.Common

/-!
# Path names and where they lead

Unix path names as character lists: joining (an absolute right operand
replaces the left one), the division into segments, and the walk through a
directory graph that the kernel makes when a name is opened.  A directory may
be entered through a symbolic link, so `..` need not undo the step before it.

`confined_iff` decides, from the spelling alone, when opening `base.join name`
can only ever reach an entry of the directory `base`.
-/

namespace PathResolution

abbrev RawPath := List Char

def isAbsolute (path : RawPath) : Bool := path.head? == some '/'

def join (left right : RawPath) : RawPath :=
  if isAbsolute right then right
  else if left = [] ∨ left.getLast? = some '/' then left ++ right
  else left ++ '/' :: right

inductive Component where
  | normal (name : RawPath)
  | parent
  deriving DecidableEq, Repr

def segments (path : RawPath) : List RawPath := path.splitOn '/'

def component? (segment : RawPath) : Option Component :=
  if segment = [] ∨ segment = ['.'] then none
  else if segment = ['.', '.'] then some .parent
  else some (.normal segment)

def components (path : RawPath) : List Component :=
  (segments path).filterMap component?

/-- The components of everything before the last separator. -/
def directoryPart (path : RawPath) : List Component :=
  (segments path).dropLast.filterMap component?

/-- The last segment, when it can name something other than a directory. -/
def fileName? (path : RawPath) : Option RawPath :=
  match (segments path).getLast?.bind component? with
  | some (.normal name) => some name
  | _ => none

/-! ## Joined paths -/

theorem segments_append (left right : RawPath) :
    segments (left ++ '/' :: right) = segments left ++ segments right :=
  List.splitOn_append_cons_self left right

theorem segments_ne_nil (path : RawPath) : segments path ≠ [] :=
  List.splitOn_ne_nil '/' path

theorem join_of_isAbsolute {left right : RawPath}
    (habsolute : isAbsolute right = true) : join left right = right := by
  simp [join, habsolute]

theorem isAbsolute_join {left right : RawPath}
    (hrelative : isAbsolute right = false) :
    isAbsolute (join left right) = isAbsolute left := by
  rw [join, if_neg (by simp [hrelative])]
  cases left with
  | nil => simpa [isAbsolute] using hrelative
  | cons char rest =>
      by_cases hlast : (char :: rest).getLast? = some '/'
      · simp [hlast, isAbsolute]
      · simp [hlast, isAbsolute]

/-- The segments of a joined path are those of the right operand after some
that spell the left one. -/
theorem segments_join {left right : RawPath}
    (hrelative : isAbsolute right = false) :
    ∃ before : List RawPath,
      segments (join left right) = before ++ segments right ∧
      before.filterMap component? = components left := by
  by_cases hempty : left = []
  · subst left
    exact ⟨[], by simp [join, hrelative],
      by simp [components, segments, component?]⟩
  · by_cases hlast : left.getLast? = some '/'
    · obtain ⟨front, hfront⟩ := List.getLast?_eq_some_iff.mp hlast
      refine ⟨segments front, ?_, ?_⟩
      · rw [join, if_neg (by simp [hrelative]), if_pos (Or.inr hlast), hfront,
          List.append_assoc, List.singleton_append, segments_append]
      · rw [components, hfront, segments_append]
        simp [segments, component?]
    · refine ⟨segments left, ?_, rfl⟩
      rw [join, if_neg (by simp [hrelative]),
        if_neg (by simp [hempty, hlast]), segments_append]

theorem directoryPart_join {left right : RawPath}
    (hrelative : isAbsolute right = false) :
    directoryPart (join left right) =
      components left ++ directoryPart right := by
  obtain ⟨before, hsegments, hbefore⟩ := segments_join hrelative
  rw [directoryPart, hsegments,
    List.dropLast_append_of_ne_nil (segments_ne_nil right),
    List.filterMap_append, hbefore]
  rfl

theorem fileName?_join (left right : RawPath) :
    fileName? (join left right) = fileName? right := by
  by_cases habsolute : isAbsolute right = true
  · rw [join_of_isAbsolute habsolute]
  · obtain ⟨before, hsegments, _⟩ :=
      segments_join (by simpa using habsolute)
    unfold fileName?
    rw [hsegments, List.getLast?_append_of_ne_nil _ (segments_ne_nil right)]

/-! ## Opening a path -/

/-- The directories of a file system as a walk sees them.  `enter` follows
symbolic links and is `none` at a name that is no directory. -/
structure FileSystem where
  Dir : Type
  root : Dir
  workingDir : Dir
  parent : Dir → Dir
  enter : Dir → RawPath → Option Dir
  parent_root : parent root = root

namespace FileSystem

variable (fs : FileSystem)

def walk : fs.Dir → List Component → Option fs.Dir
  | dir, [] => some dir
  | dir, .parent :: rest => walk (fs.parent dir) rest
  | dir, .normal name :: rest =>
      (fs.enter dir name).bind fun next => walk next rest

def origin (path : RawPath) : fs.Dir :=
  if isAbsolute path then fs.root else fs.workingDir

/-- The directory a path names. -/
def resolveDir (path : RawPath) : Option fs.Dir :=
  fs.walk (fs.origin path) (components path)

/-- The directory entry that opening a path for writing touches.  The system
call fails on an interior NUL, on a missing directory, and on a path that names
a directory. -/
def locate (path : RawPath) : Option (fs.Dir × RawPath) :=
  if '\u0000' ∈ path then none
  else
    (fileName? path).bind fun name =>
      (fs.walk (fs.origin path) (directoryPart path)).bind fun dir =>
        if (fs.enter dir name).isSome then none else some (dir, name)

end FileSystem

/-- In every file system, opening `join base name` reaches an entry of `base`
or nothing. -/
def Confined (base name : RawPath) : Prop :=
  ∀ (fs : FileSystem) (dir : fs.Dir) (entry : RawPath),
    fs.locate (join base name) = some (dir, entry) →
      fs.resolveDir base = some dir

/-! ## The spelling that confines a name

The parent of the root is the root, so `..` directly after it is dropped. -/

def climb (path : List Component) : List Component :=
  path.dropWhile (· = .parent)

/-- The directory part of `join base name` spells `base`: `name` is a plain
file name, or it climbs out of the root only, or it is absolute and its
directory part is `base` written out. -/
def SpelledInside (base name : RawPath) : Prop :=
  if isAbsolute name then
    isAbsolute base ∧ climb (directoryPart name) = climb (components base)
  else
    directoryPart name = [] ∨
      (isAbsolute base ∧ climb (components base) = [] ∧
        climb (directoryPart name) = [])

instance (base name : RawPath) : Decidable (SpelledInside base name) := by
  unfold SpelledInside
  exact inferInstance

/-- Nothing can be opened for writing under this name. -/
def Unopenable (base name : RawPath) : Prop :=
  '\u0000' ∈ join base name ∨ fileName? name = none

instance (base name : RawPath) : Decidable (Unopenable base name) :=
  inferInstanceAs (Decidable (_ ∨ _))

/-! ### Walks from the root -/

theorem FileSystem.walk_climb (fs : FileSystem) (path : List Component) :
    fs.walk fs.root (climb path) = fs.walk fs.root path := by
  induction path with
  | nil => rfl
  | cons component rest ih =>
      cases component with
      | normal name => rfl
      | parent =>
          have hclimb : climb (.parent :: rest) = climb rest := by
            simp [climb]
          rw [hclimb, ih, FileSystem.walk, fs.parent_root]

theorem FileSystem.walk_append (fs : FileSystem) (dir : fs.Dir)
    (left right : List Component) :
    fs.walk dir (left ++ right) =
      (fs.walk dir left).bind fun middle => fs.walk middle right := by
  induction left generalizing dir with
  | nil => rfl
  | cons component rest ih =>
      cases component with
      | parent => exact ih (fs.parent dir)
      | normal name =>
          simp only [List.cons_append, FileSystem.walk]
          cases fs.enter dir name with
          | none => rfl
          | some next => exact ih next

theorem FileSystem.locate_eq_some {fs : FileSystem} {path entry : RawPath}
    {dir : fs.Dir} (hlocate : fs.locate path = some (dir, entry)) :
    fileName? path = some entry ∧
      fs.walk (fs.origin path) (directoryPart path) = some dir := by
  unfold FileSystem.locate at hlocate
  split at hlocate
  · contradiction
  · simp only [Option.bind_eq_some_iff] at hlocate
    obtain ⟨name, hname, reached, hwalk, hentry⟩ := hlocate
    split at hentry
    · contradiction
    · simp only [Option.some.injEq, Prod.mk.injEq] at hentry
      rcases hentry with ⟨rfl, rfl⟩
      exact ⟨hname, hwalk⟩

/-- A name that is spelled inside is confined. -/
theorem confined_of_spelledInside {base name : RawPath}
    (hspelled : SpelledInside base name) : Confined base name := by
  intro fs dir entry hlocate
  have hwalk := (FileSystem.locate_eq_some hlocate).2
  unfold SpelledInside at hspelled
  cases habsolute : isAbsolute name with
  | true =>
      simp only [habsolute, if_true] at hspelled
      obtain ⟨hbase, hdirs⟩ := hspelled
      rw [join_of_isAbsolute habsolute] at hwalk
      simp only [FileSystem.origin, habsolute, if_true] at hwalk
      simp only [FileSystem.resolveDir, FileSystem.origin, hbase, if_true]
      rw [← fs.walk_climb, ← hdirs, fs.walk_climb]
      exact hwalk
  | false =>
      simp only [habsolute, Bool.false_eq_true, if_false] at hspelled
      have horigin : fs.origin (join base name) = fs.origin base := by
        simp only [FileSystem.origin, isAbsolute_join habsolute]
      rw [directoryPart_join habsolute, horigin] at hwalk
      unfold FileSystem.resolveDir
      rcases hspelled with hplain | ⟨hbase, hroot, hclimbs⟩
      · rw [hplain, List.append_nil] at hwalk
        exact hwalk
      · have hstart : fs.origin base = fs.root := by
          simp [FileSystem.origin, hbase]
        have hbaseWalk : fs.walk fs.root (components base) = some fs.root := by
          rw [← fs.walk_climb, hroot]
          rfl
        have hnameWalk : fs.walk fs.root (directoryPart name) =
            some fs.root := by
          rw [← fs.walk_climb, hclimbs]
          rfl
        rw [hstart, fs.walk_append, hbaseWalk, Option.bind_some,
          hnameWalk] at hwalk
        rw [hstart, hbaseWalk]
        exact hwalk

/-! ### A file system that tells spellings apart

Its directories are the walks themselves, taken from the root or from the
working directory, so two spellings lead to one directory only if they agree
up to `..` at the root.  One entry is no directory: the file to be opened. -/

namespace FreeWalk

structure Place where
  fromRoot : Bool
  trail : List Component
  deriving DecidableEq

def up (place : Place) : Place :=
  if place.fromRoot ∧ place.trail = [] then place
  else ⟨place.fromRoot, place.trail ++ [.parent]⟩

def down (place : Place) (name : RawPath) : Place :=
  ⟨place.fromRoot, place.trail ++ [.normal name]⟩

def follow : Place → List Component → Place
  | place, [] => place
  | place, .parent :: rest => follow (up place) rest
  | place, .normal name :: rest => follow (down place name) rest

abbrev fileSystem (target : Place) (file : RawPath) : FileSystem where
  Dir := Place
  root := ⟨true, []⟩
  workingDir := ⟨false, []⟩
  parent := up
  enter := fun place name =>
    if place = target ∧ name = file then none else some (down place name)
  parent_root := rfl

theorem length_up (place : Place) :
    place.trail.length ≤ (up place).trail.length := by
  unfold up
  split <;> simp

theorem length_follow (place : Place) (path : List Component) :
    place.trail.length ≤ (follow place path).trail.length := by
  induction path generalizing place with
  | nil => exact Nat.le_refl _
  | cons component rest ih =>
      cases component with
      | parent => exact Nat.le_trans (length_up place) (ih (up place))
      | normal name =>
          have hdown : place.trail.length ≤ (down place name).trail.length := by
            simp [down]
          exact Nat.le_trans hdown (ih (down place name))

/-- Away from the root a walk is its own trail. -/
theorem follow_eq_append {place : Place}
    (hplace : ¬ (place.fromRoot ∧ place.trail = []))
    (path : List Component) :
    follow place path = ⟨place.fromRoot, place.trail ++ path⟩ := by
  induction path generalizing place with
  | nil => simp [follow]
  | cons component rest ih =>
      cases component with
      | parent =>
          simp only [follow, up, if_neg hplace]
          rw [ih (by simp)]
          simp
      | normal name =>
          simp only [follow, down]
          rw [ih (by simp)]
          simp

theorem follow_root (path : List Component) :
    follow ⟨true, []⟩ path = ⟨true, climb path⟩ := by
  induction path with
  | nil => rfl
  | cons component rest ih =>
      cases component with
      | parent =>
          have hclimb : climb (.parent :: rest) = climb rest := by
            simp [climb]
          rw [hclimb]
          exact ih
      | normal name =>
          have hclimb : climb (.normal name :: rest) = .normal name :: rest := by
            simp [climb]
          rw [hclimb]
          simp only [follow, down]
          rw [follow_eq_append (by simp)]
          simp

theorem walk_eq_follow {target place reached : Place} {file : RawPath}
    {path : List Component}
    (hwalk : (fileSystem target file).walk place path = some reached) :
    reached = follow place path := by
  induction path generalizing place with
  | nil => exact (Option.some.inj hwalk).symm
  | cons component rest ih =>
      cases component with
      | parent => exact ih hwalk
      | normal name =>
          obtain ⟨next, henter, hrest⟩ := Option.bind_eq_some_iff.mp hwalk
          have hnext : down place name = next := by
            change (if place = target ∧ name = file then none
              else some (down place name)) = some next at henter
            split at henter
            · contradiction
            · exact Option.some.inj henter
          subst next
          exact ih hrest

/-- A walk that stays as short as the target's trail does not run into the
file. -/
theorem walk_of_length_le {target place : Place} {file : RawPath}
    {path : List Component}
    (hlength :
      (follow place path).trail.length ≤ target.trail.length) :
    (fileSystem target file).walk place path = some (follow place path) := by
  induction path generalizing place with
  | nil => rfl
  | cons component rest ih =>
      cases component with
      | parent => exact ih hlength
      | normal name =>
          have hlonger :
              place.trail.length < (follow (down place name) rest).trail.length :=
            calc
              place.trail.length < (down place name).trail.length := by
                simp [down]
              _ ≤ (follow (down place name) rest).trail.length :=
                length_follow _ _
          have hne : place ≠ target := by
            rintro rfl
            exact absurd hlength (Nat.not_le.mpr hlonger)
          have henter : (fileSystem target file).enter place name =
              some (down place name) := if_neg (fun heq => hne heq.1)
          rw [FileSystem.walk, henter]
          exact ih hlength

end FreeWalk

open FreeWalk in
/-- Where the walk of a path ends in the free file system. -/
theorem follow_origin (target : Place) (file path : RawPath)
    (trail : List Component) :
    follow ((fileSystem target file).origin path) trail =
      ⟨isAbsolute path,
        if isAbsolute path then climb trail else trail⟩ := by
  unfold FileSystem.origin
  cases habsolute : isAbsolute path with
  | true => exact follow_root trail
  | false =>
      simp only [Bool.false_eq_true, if_false]
      exact follow_eq_append (by simp) trail

theorem climb_append_eq_climb {left right : List Component}
    (heq : climb (left ++ right) = climb left) :
    right = [] ∨ (climb left = [] ∧ climb right = []) := by
  unfold climb at heq ⊢
  rw [List.dropWhile_append] at heq
  split at heq
  next hempty =>
    rw [List.isEmpty_iff] at hempty
    exact Or.inr ⟨hempty, by rw [heq, hempty]⟩
  next => exact Or.inl (by simpa using heq)

open FreeWalk in
/-- A name that can be opened and is confined is spelled inside. -/
theorem spelledInside_of_confined {base name : RawPath}
    (hopenable : ¬ Unopenable base name) (hconfined : Confined base name) :
    SpelledInside base name := by
  unfold Unopenable at hopenable
  rw [not_or] at hopenable
  obtain ⟨hnul, hname⟩ := hopenable
  obtain ⟨file, hfile⟩ := Option.ne_none_iff_exists'.mp hname
  let trail := directoryPart (join base name)
  let absolute := isAbsolute (join base name)
  let target : Place := ⟨absolute, if absolute then climb trail else trail⟩
  let fs := fileSystem target file
  have hfollow : follow (fs.origin (join base name)) trail = target :=
    follow_origin target file (join base name) trail
  have hwalk : fs.walk (fs.origin (join base name)) trail = some target := by
    have hreach : fs.walk (fs.origin (join base name)) trail =
        some (follow (fs.origin (join base name)) trail) :=
      walk_of_length_le (Nat.le_of_eq (congrArg (·.trail.length) hfollow))
    rw [hreach, hfollow]
  have hentry : fs.enter target file = none := by
    simp [fs, fileSystem]
  have hlocate : fs.locate (join base name) = some (target, file) := by
    simp only [FileSystem.locate, if_neg hnul, fileName?_join, hfile,
      Option.bind_some]
    change ((fs.walk (fs.origin (join base name)) trail).bind fun dir =>
      if (fs.enter dir file).isSome then none else some (dir, file)) = _
    rw [hwalk, Option.bind_some, hentry]
    rfl
  have hbase : fs.walk (fs.origin base) (components base) = some target :=
    hconfined fs target file hlocate
  have hplace : target =
      ⟨isAbsolute base,
        if isAbsolute base then climb (components base)
        else components base⟩ := by
    rw [walk_eq_follow hbase]
    exact follow_origin target file base (components base)
  simp only [target, Place.mk.injEq] at hplace
  obtain ⟨horigin, htrail⟩ := hplace
  unfold SpelledInside
  cases habsolute : isAbsolute name with
  | true =>
      have hjoin : join base name = name := join_of_isAbsolute habsolute
      have hbaseAbsolute : isAbsolute base = true := by
        rw [← horigin]
        simp only [absolute, hjoin, habsolute]
      simp only [absolute, trail, hjoin, habsolute, hbaseAbsolute,
        if_true] at htrail
      exact ⟨hbaseAbsolute, htrail⟩
  | false =>
      simp only [Bool.false_eq_true, if_false]
      simp only [absolute, isAbsolute_join habsolute, trail,
        directoryPart_join habsolute] at htrail
      cases hbaseAbsolute : isAbsolute base with
      | true =>
          simp only [hbaseAbsolute, if_true] at htrail
          rcases climb_append_eq_climb htrail with hplain | hclimbs
          · exact Or.inl hplain
          · exact Or.inr ⟨rfl, hclimbs.1, hclimbs.2⟩
      | false =>
          simp only [hbaseAbsolute, Bool.false_eq_true, if_false] at htrail
          exact Or.inl (by simpa using htrail)

theorem confined_of_unopenable {base name : RawPath}
    (hunopenable : Unopenable base name) : Confined base name := by
  intro fs dir entry hlocate
  have hfile := (FileSystem.locate_eq_some hlocate).1
  rw [fileName?_join] at hfile
  rcases hunopenable with hnul | hname
  · simp [FileSystem.locate, hnul] at hlocate
  · rw [hname] at hfile
    contradiction

/-- The names that are confined to a directory, by their spelling. -/
theorem confined_iff (base name : RawPath) :
    Confined base name ↔
      Unopenable base name ∨ SpelledInside base name := by
  constructor
  · intro hconfined
    by_cases hunopenable : Unopenable base name
    · exact Or.inl hunopenable
    · exact Or.inr (spelledInside_of_confined hunopenable hconfined)
  · intro hname
    rcases hname with hunopenable | hspelled
    · exact confined_of_unopenable hunopenable
    · exact confined_of_spelledInside hspelled

end PathResolution
