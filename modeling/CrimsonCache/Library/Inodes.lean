import Mathlib.Logic.Function.Basic

/-!
Files as those who hold them open see them: a name leads to an inode and an
inode to its content. Whoever opened a file keeps its inode, whatever happens
to the name. No two names lead to one inode.
-/

namespace Inodes

universe u v
variable {Name : Type u} {Byte : Type v}

structure FileSystem (Name : Type u) (Byte : Type v) where
  names : Name → Option Nat
  contents : Nat → List Byte
  next : Nat
  fresh : ∀ name inode, names name = some inode → inode < next
  single : ∀ first second inode, names first = some inode → names second = some inode →
    first = second

def contentOf (files : FileSystem Name Byte) (name : Name) : Option (List Byte) :=
  (files.names name).map files.contents

def setContent (files : FileSystem Name Byte) (inode : Nat) (content : List Byte) :
    FileSystem Name Byte :=
  { files with contents := Function.update files.contents inode content }

/-- A `write` at an offset. Behind the end of the file the gap reads as zeros;
    writing no byte changes nothing. -/
def overwrite [Inhabited Byte] (content : List Byte) (offset : Nat) : List Byte → List Byte
  | [] => content
  | byte :: bytes =>
      content.take offset ++ List.replicate (offset - content.length) default ++
        byte :: bytes ++ content.drop (offset + (byte :: bytes).length)

def writeAt [Inhabited Byte] (files : FileSystem Name Byte) (inode offset : Nat)
    (bytes : List Byte) : FileSystem Name Byte :=
  setContent files inode (overwrite (files.contents inode) offset bytes)

@[simp] theorem overwrite_nothing [Inhabited Byte] (content : List Byte) (offset : Nat) :
    overwrite content offset [] = content := rfl

@[simp] theorem overwrite_end [Inhabited Byte] (content bytes : List Byte) :
    overwrite content content.length bytes = content ++ bytes := by
  cases bytes with
  | nil => simp
  | cons byte bytes => simp [overwrite]

theorem overwrite_empty [Inhabited Byte] (bytes : List Byte) : overwrite [] 0 bytes = bytes :=
  overwrite_end [] bytes

section Names

variable [DecidableEq Name]

/-- Lead a name elsewhere, or nowhere. -/
def point (files : FileSystem Name Byte) (name : Name) (target : Option Nat)
    (known : ∀ inode, target = some inode → inode < files.next)
    (unnamed : ∀ inode, target = some inode → ∀ other, other ≠ name →
      files.names other ≠ some inode) : FileSystem Name Byte where
  names := Function.update files.names name target
  contents := files.contents
  next := files.next
  fresh := by
    intro other inode leads
    rcases eq_or_ne other name with rfl | apart
    · rw [Function.update_self] at leads
      exact known inode leads
    · rw [Function.update_of_ne apart] at leads
      exact files.fresh other inode leads
  single := by
    intro first second inode one two
    by_cases here : first = name <;> by_cases there : second = name
    · rw [here, there]
    · rw [here, Function.update_self] at one
      rw [Function.update_of_ne there] at two
      exact absurd two (unnamed inode one second there)
    · rw [there, Function.update_self] at two
      rw [Function.update_of_ne here] at one
      exact absurd one (unnamed inode two first here)
    · rw [Function.update_of_ne here] at one
      rw [Function.update_of_ne there] at two
      exact files.single first second inode one two

def unlink (files : FileSystem Name Byte) (name : Name) : FileSystem Name Byte :=
  point files name none (by simp) (by simp)

/-- An empty file without a name yet. -/
def allocate (files : FileSystem Name Byte) : FileSystem Name Byte where
  names := files.names
  contents := Function.update files.contents files.next []
  next := files.next + 1
  fresh := fun name inode leads => Nat.lt_succ_of_lt (files.fresh name inode leads)
  single := files.single

def create (files : FileSystem Name Byte) (name : Name) : FileSystem Name Byte :=
  point (allocate files) name (some files.next)
    (by
      intro inode new
      cases new
      exact Nat.lt_succ_self files.next)
    (by
      intro inode new other _ leads
      cases new
      exact absurd (files.fresh other files.next leads) (Nat.lt_irrefl _))

/-- `fopen` for writing: an existing file keeps its inode and loses its content. -/
def openTruncated (files : FileSystem Name Byte) (name : Name) : FileSystem Name Byte × Nat :=
  match files.names name with
  | some inode => (setContent files inode [], inode)
  | none => (create files name, files.next)

/-- `none` where the source does not exist. -/
def rename (files : FileSystem Name Byte) (source target : Name) :
    Option (FileSystem Name Byte) :=
  match leads : files.names source with
  | none => none
  | some inode =>
      some (point (unlink files source) target (some inode)
        (by
          intro found same
          cases same
          exact files.fresh source inode leads)
        (by
          intro found same other _ still
          cases same
          by_cases here : other = source
          · simp [unlink, point, here] at still
          · simp only [unlink, point, Function.update_of_ne here] at still
            exact here (files.single other source inode still leads)))

theorem open_names (files : FileSystem Name Byte) (name : Name) :
    (openTruncated files name).1.names =
      Function.update files.names name (some (openTruncated files name).2) := by
  cases leads : files.names name with
  | none => simp [openTruncated, leads, create, point, allocate]
  | some inode =>
      simp only [openTruncated, leads, setContent]
      rw [← leads, Function.update_eq_self]

theorem open_contents (files : FileSystem Name Byte) (name : Name) :
    (openTruncated files name).1.contents =
      Function.update files.contents (openTruncated files name).2 [] := by
  cases leads : files.names name with
  | none => simp [openTruncated, leads, create, point, allocate]
  | some inode => simp [openTruncated, leads, setContent]

/-- What is opened is the file of that name or a new one. -/
theorem open_inode (files : FileSystem Name Byte) (name other : Name) (apart : other ≠ name) :
    files.names other ≠ some (openTruncated files name).2 := by
  intro leads
  cases here : files.names name with
  | none =>
      simp only [openTruncated, here] at leads
      exact absurd (files.fresh other _ leads) (Nat.lt_irrefl _)
  | some inode =>
      simp only [openTruncated, here] at leads
      exact apart (files.single other name inode leads here)

theorem rename_absent (files : FileSystem Name Byte) (source target : Name)
    (absent : files.names source = none) : rename files source target = none := by
  unfold rename
  split
  · rfl
  case h_2 inode leads => simp [absent] at leads

theorem rename_present (files : FileSystem Name Byte) (source target : Name) (inode : Nat)
    (leads : files.names source = some inode) :
    ∃ renamed, rename files source target = some renamed ∧
      renamed.names =
        Function.update (Function.update files.names source none) target (some inode) ∧
      renamed.contents = files.contents := by
  unfold rename
  split
  case h_1 absent => simp [leads] at absent
  case h_2 found here =>
    have same : found = inode := by simpa [leads] using here.symm
    subst same
    exact ⟨_, rfl, rfl, rfl⟩

section Read

theorem content_unlink (files : FileSystem Name Byte) (name : Name) :
    contentOf (unlink files name) = Function.update (contentOf files) name none := by
  funext other
  by_cases here : other = name <;> simp [contentOf, unlink, point, here]

/-- The content of an inode is what its name reads, and no other name. -/
theorem content_set (files : FileSystem Name Byte) (name : Name) (inode : Nat)
    (leads : files.names name = some inode) (content : List Byte) :
    contentOf (setContent files inode content) = Function.update (contentOf files) name (some content) := by
  funext other
  by_cases here : other = name
  · simp [contentOf, setContent, here, leads]
  · cases there : files.names other with
    | none => simp [contentOf, setContent, here, there]
    | some found =>
        have apart : found ≠ inode := by
          rintro rfl
          exact here (files.single other name found there leads)
        simp [contentOf, setContent, here, there, apart]

theorem content_open (files : FileSystem Name Byte) (name : Name) :
    contentOf (openTruncated files name).1 = Function.update (contentOf files) name (some []) := by
  funext other
  by_cases here : other = name
  · simp [contentOf, here, open_names, open_contents]
  · cases there : files.names other with
    | none => simp [contentOf, here, open_names, there]
    | some found =>
        have apart : found ≠ (openTruncated files name).2 := by
          rintro rfl
          exact open_inode files name other here there
        simp [contentOf, here, open_names, open_contents, there, apart]

theorem content_rename (files : FileSystem Name Byte) (source target : Name) (content : List Byte)
    (present : contentOf files source = some content) :
    ∃ renamed, rename files source target = some renamed ∧
      contentOf renamed =
        Function.update (Function.update (contentOf files) source none) target (some content) := by
  obtain ⟨inode, leads, same⟩ := Option.map_eq_some_iff.mp present
  obtain ⟨renamed, result, names, contents⟩ := rename_present files source target inode leads
  refine ⟨renamed, result, ?_⟩
  funext other
  by_cases there : other = target
  · simp [contentOf, names, contents, there, same]
  · rw [Function.update_of_ne there, contentOf, names, Function.update_of_ne there, contents]
    by_cases here : other = source
    · simp [here]
    · simp [here, contentOf]

end Read

end Names

end Inodes
