import ProtoDecl.Text.Basic
import ProtoDecl.Text.Quoted
import ProtoDecl.TypeScript.Generate

/-!
# Project settings

How the declarations of a project are laid out, and how they refer to imported files.

* `Settings.resolve` turns the path of an import, as the schema has it, into the path that the
  declarations refer to;
* `Settings.fault?` says what is wrong with settings that cannot be used;
* `Settings.options` are the options for writing declarations.
-/

namespace ProtoDecl

/-- A change of import paths: those that begin with `source` begin with `target` instead. -/
structure ImportMapping where
  source : String
  target : String
deriving DecidableEq, Repr

/-- The settings of a project.  Unless something is set, paths stay as they are. -/
structure Settings where
  /-- How many blanks a level of depth has. -/
  indentSize : Option Nat := none
  /-- Whether the extension of schema files is taken off paths. -/
  stripExtension : Bool := false
  /-- What goes in front of a relative path that no mapping changed. -/
  importRoot : Option String := none
  /-- The changes of paths; the first one that fits is made. -/
  mappings : List ImportMapping := []
deriving DecidableEq, Repr

/-- Why settings cannot be used. -/
inductive SettingsError where
  /-- The text is malformed or holds something else. -/
  | malformed
  /-- The indentation is zero. -/
  | noIndent
  /-- A mapping fits all paths. -/
  | emptySource (target : String)
deriving DecidableEq, Repr

/-- The text of an error. -/
def SettingsError.message : SettingsError → String
  | malformed => "YAML error: malformed settings"
  | noIndent => "Config error: indent_size must be at least 1"
  | emptySource target =>
    "Config error: import mapping to " ++ Text.quote target ++ " has an empty 'from' prefix"

namespace ImportMapping

/-- The changed path, if the mapping fits. -/
def changed? (m : ImportMapping) (path : List Char) : Option (List Char) :=
  (Text.dropStart? m.source.toList path).map fun rest => m.target.toList ++ rest

end ImportMapping

namespace Settings

/-- What is wrong with settings, if anything.  The indentation comes before the mappings. -/
def fault? (s : Settings) : Option SettingsError :=
  if s.indentSize = some 0 then some .noIndent
  else (s.mappings.find? fun m => m.source.isEmpty).map fun m => .emptySource m.target

/-- The settings, if they can be used. -/
def checked (s : Settings) : Except SettingsError Settings :=
  match s.fault? with
  | some fault => .error fault
  | none => .ok s

/-- The path that the first fitting mapping gives. -/
def mapped? (s : Settings) (path : List Char) : Option (List Char) :=
  s.mappings.findSome? fun m => m.changed? path

/-- A path without the extension, if that is to be taken off. -/
def strip (s : Settings) (path : List Char) : List Char :=
  if s.stripExtension then (Text.dropEnd? ".proto".toList path).getD path else path

/-- Whether a path names its own starting point. -/
def isAnchored : List Char → Bool
  | '.' :: _ => true
  | '/' :: _ => true
  | _ => false

/-- A path below the root for imports, unless it is anchored. -/
def underRoot (s : Settings) (path : List Char) : List Char :=
  if isAnchored path then path else (s.importRoot.getD "").toList ++ path

/-- The path that declarations refer to for an import of the given path. -/
def resolve (s : Settings) (path : String) : String :=
  String.ofList <|
    match s.mapped? path.toList with
    | some changed => s.strip changed
    | none => s.underRoot (s.strip path.toList)

/-- The options for writing declarations under these settings. -/
def options (s : Settings) : TypeScript.Options :=
  { indentSize := s.indentSize.getD 2, resolve := s.resolve }

end Settings

end ProtoDecl
