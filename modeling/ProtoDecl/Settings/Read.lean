import ProtoDecl.Settings.Basic
import ProtoDecl.Yaml.Document

/-!
# Settings in a file

Settings are written as a mapping in YAML.  Keys that have no meaning are passed over, and a key
with one stands at most once.  A text that has no quotes is read as what the key asks for, so a
number can be a path; a text in quotes is never a number or a truth value.
-/

namespace ProtoDecl.Settings

open Yaml

/-! ## Scalars -/

/-- The value of a digit in the given base. -/
def digitIn? (base : Nat) (c : Char) : Option Nat :=
  (hexDigit? c).filter fun value => value < base

/-- The number that digits in the given base denote, if it fits in 64 bits. -/
def naturalIn? (base : Nat) (digits : List Char) : Option Nat := do
  if digits.isEmpty then none
  let values ← digits.mapM (digitIn? base)
  let value := values.foldl (fun n d => n * base + d) 0
  if value < UInt64.size then return value else none

/-- A natural number: decimal digits that do not begin with a needless zero, or digits in another
base behind its mark.  A plus sign may come first. -/
def natural? (text : List Char) : Option Nat :=
  let digits := (Text.dropStart? ['+'] text).getD text
  match digits with
  | '0' :: 'x' :: rest => naturalIn? 16 rest
  | '0' :: 'o' :: rest => naturalIn? 8 rest
  | '0' :: 'b' :: rest => naturalIn? 2 rest
  | '0' :: _ :: _ => none
  | _ => naturalIn? 10 digits

/-- A truth value. -/
def flag? (text : String) : Option Bool :=
  if ["true", "True", "TRUE"].contains text then some true
  else if ["false", "False", "FALSE"].contains text then some false
  else none

/-- Whether a value says that there is none. -/
def isNothing : Node → Bool
  | .scalar true text => ["", "~", "null", "Null", "NULL"].contains text
  | _ => false

/-! ## Values

Each of these gives no result for a value of the wrong shape. -/

/-- A text. -/
def textOf? : Node → Option String
  | .scalar _ text => some text
  | _ => none

/-- A natural number. -/
def naturalOf? : Node → Option Nat
  | .scalar true text => natural? text.toList
  | _ => none

/-- A truth value. -/
def flagOf? : Node → Option Bool
  | .scalar true text => flag? text
  | _ => none

/-- A value that may be absent. -/
def optionalOf? {α : Type} (read : Node → Option α) (node : Node) : Option (Option α) :=
  if isNothing node then some none else (read node).map some

/-- The items of a sequence; a place where nothing is written holds none. -/
def itemsOf? : Node → Option (List Node)
  | .sequence items => some items
  | .scalar true "" => some []
  | _ => none

/-- The values under the keys of a mapping; a place where nothing is written holds none. -/
def membersOf? : Node → Option (List (String × Node))
  | .mapping entries => entries.mapM fun (key, value) => (textOf? key).map fun name => (name, value)
  | .scalar true "" => some []
  | _ => none

/-- The value under a key, or `default` if there is none.  The key may not be repeated. -/
def member? {α : Type} (members : List (String × Node)) (key : String) (default : Option α)
    (read : Node → Option α) : Option α :=
  match members.filter fun m => m.1 = key with
  | [] => default
  | [(_, value)] => read value
  | _ => none

/-! ## Settings -/

/-- A mapping of import paths, both sides of which must be given. -/
def mappingOf? (node : Node) : Option ImportMapping := do
  let members ← membersOf? node
  let source ← member? members "from" none textOf?
  let target ← member? members "to" none textOf?
  return { source, target }

/-- The settings that a value holds.  Paths lose their extension unless the file says otherwise. -/
def ofNode? (node : Node) : Option Settings := do
  let members ← membersOf? node
  let indentSize ← member? members "indent_size" (some none) (optionalOf? naturalOf?)
  let stripExtension ← member? members "strip_proto_extension" (some true) flagOf?
  let importRoot ← member? members "import_prefix" (some none) (optionalOf? textOf?)
  let mappings ← member? members "import_mappings" (some []) fun value => do
    (← itemsOf? value).mapM mappingOf?
  return { indentSize, stripExtension, importRoot, mappings }

/-- The settings that a text holds. -/
def ofText? (text : String) : Option Settings :=
  (Yaml.read? text).bind ofNode?

/-- The settings that a text holds, if they can be used. -/
def read (text : String) : Except SettingsError Settings :=
  match ofText? text with
  | none => .error .malformed
  | some settings => settings.checked

end ProtoDecl.Settings
