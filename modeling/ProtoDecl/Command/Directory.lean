import ProtoDecl.Text.Basic

/-!
# A directory of files

The part of a file system that a command sees: one directory, which holds files and no other
directories.  Reading changes nothing, and a write either stores everything or fails and changes
nothing.
-/

namespace ProtoDecl.Command

/-- The contents of a file. -/
abbrev Bytes := List UInt8

/-- Why a file cannot be read or written. -/
inductive FileError where
  | notFound
  | notDirectory
  | isDirectory
  | notText
  | other (text : String)
deriving DecidableEq, Repr

/-- The text of an error. -/
def FileError.message : FileError → String
  | notFound => "No such file or directory (os error 2)"
  | notDirectory => "Not a directory (os error 20)"
  | isDirectory => "Is a directory (os error 21)"
  | notText => "stream did not contain valid UTF-8"
  | other text => text

/-- A directory: the files with their names. -/
structure Directory where
  files : List (String × Bytes)
deriving DecidableEq, Repr

namespace Directory

/-- What a path leads to. -/
inductive Target where
  /-- A directory. -/
  | directory
  /-- The file of the given name, which need not exist. -/
  | file (name : String)
  /-- The file of the given name, with a slash behind it. -/
  | slashed (name : String)
  /-- Something below the file of the given name. -/
  | below (name : String)
  /-- Somewhere that does not exist. -/
  | nowhere
deriving DecidableEq, Repr

/-- Where a path leads.  Nothing is known beyond the directory itself. -/
def target (path : String) : Target :=
  let parts := (Text.segments '/' path.toList).map String.ofList
  let steps := parts.filter fun part => part != "" && part != "."
  match steps with
  | [] => .directory
  | name :: rest =>
    if steps.all fun step => step = ".." then .directory
    else if parts.head? = some "" || name = ".." then .nowhere
    else if !rest.isEmpty || parts.getLast? = some "." then .below name
    else if parts.getLast? = some "" then .slashed name
    else .file name

/-- The contents of the file with the given name. -/
def contents? (d : Directory) (name : String) : Option Bytes :=
  d.files.lookup name

/-- The error of a path that takes a file for a directory. -/
def errorBelow (d : Directory) (name : String) : FileError :=
  if (d.contents? name).isSome then .notDirectory else .notFound

/-- Reads a file. -/
def read (d : Directory) (path : String) : Except FileError Bytes :=
  match target path with
  | .directory => .error .isDirectory
  | .nowhere => .error .notFound
  | .slashed name => .error (d.errorBelow name)
  | .below name => .error (d.errorBelow name)
  | .file name =>
    match d.contents? name with
    | some bytes => .ok bytes
    | none => .error .notFound

/-- The directory with a file replaced or added. -/
def store (d : Directory) (name : String) (bytes : Bytes) : Directory :=
  ⟨(name, bytes) :: d.files.filter fun file => file.1 != name⟩

/-- Taking out all files of one name leaves the others as they are. -/
theorem lookup_filter_ne {name other : String} (h : other ≠ name) (files : List (String × Bytes)) :
    (files.filter fun file => file.1 != name).lookup other = files.lookup other := by
  induction files with
  | nil => rfl
  | cons file rest ih =>
    by_cases hf : file.1 = name
    · have hne : (other == file.1) = false := by simp [hf, h]
      rw [List.filter_cons_of_neg (by simp [hf]), ih, List.lookup_cons, hne]
    · rw [List.filter_cons_of_pos (by simp [hf]), List.lookup_cons, List.lookup_cons, ih]

/-- Storing a file sets its contents and leaves every other file as it is. -/
theorem contents?_store (d : Directory) (name other : String) (bytes : Bytes) :
    (d.store name bytes).contents? other
      = if other = name then some bytes else d.contents? other := by
  unfold store contents?
  rw [List.lookup_cons]
  by_cases h : other = name
  · simp [h]
  · have hne : (other == name) = false := by simp [h]
    rw [hne, if_neg h]
    exact lookup_filter_ne h d.files

/-- Writes a file. -/
def write (d : Directory) (path : String) (bytes : Bytes) : Except FileError Directory :=
  match target path with
  | .directory => .error .isDirectory
  | .nowhere => .error .notFound
  | .slashed _ => .error .isDirectory
  | .below name => .error (d.errorBelow name)
  | .file name => .ok (d.store name bytes)

end Directory

end ProtoDecl.Command
