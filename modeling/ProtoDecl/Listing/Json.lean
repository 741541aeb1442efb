import ProtoDecl.Number.Shortest

/-!
# JSON documents

The values of which listings are made, and their text on several lines: two spaces for each level,
members in the order given, characters outside ASCII as they are.

A number is either whole, or a double written by its shortest decimal.  A double that is not finite
has no text in JSON and is written as `null`.
-/

namespace ProtoDecl.Listing

/-- A JSON value. -/
inductive Json where
  | null
  | bool (value : Bool)
  | whole (value : Nat)
  | real (value : Number.Double)
  | text (value : String)
  | list (items : List Json)
  | record (members : List (String × Json))

namespace Json

/-- A value that may be missing. -/
def ofOption {α : Type} (f : α → Json) : Option α → Json
  | some a => f a
  | none => null

/-- A list of values. -/
def ofList {α : Type} (f : α → Json) (xs : List α) : Json :=
  list (xs.map f)

/-! ## Text -/

/-- The four digits of a code point below 65536. -/
def fourHexDigits (n : Nat) : List Char :=
  let digits := Nat.toDigits 16 n
  List.replicate (4 - digits.length) '0' ++ digits

/-- How a character is written in a string. -/
def escapeChar (c : Char) : List Char :=
  if c = '"' then ['\\', '"']
  else if c = '\\' then ['\\', '\\']
  else if c = '\x08' then ['\\', 'b']
  else if c = '\x0c' then ['\\', 'f']
  else if c = '\n' then ['\\', 'n']
  else if c = '\r' then ['\\', 'r']
  else if c = '\t' then ['\\', 't']
  else if c.toNat < 0x20 then ['\\', 'u'] ++ fourHexDigits c.toNat
  else [c]

/-- A string between quotes. -/
def quote (s : String) : String :=
  String.ofList (['"'] ++ s.toList.flatMap escapeChar ++ ['"'])

/-- The blanks before a line at the given level. -/
def margin (level : Nat) : String :=
  String.ofList (List.replicate (2 * level) ' ')

mutual

/-- The text of a value whose first line stands at the given level. -/
def pretty (level : Nat) : Json → String
  | null => "null"
  | bool value => if value then "true" else "false"
  | whole value => toString value
  | real value => value.text?.getD "null"
  | text value => quote value
  | list items =>
    if items.isEmpty then "[]"
    else "[" ++ prettyItems (level + 1) true items ++ "\n" ++ margin level ++ "]"
  | record members =>
    if members.isEmpty then "\x7b\x7d"
    else "\x7b" ++ prettyMembers (level + 1) true members ++ "\n" ++ margin level ++ "\x7d"

/-- The items of a list, each on lines of its own. -/
def prettyItems (level : Nat) (isFirst : Bool) : List Json → String
  | [] => ""
  | item :: rest =>
    (if isFirst then "\n" else ",\n") ++ margin level ++ pretty level item
      ++ prettyItems level false rest

/-- The members of a record, each on lines of its own. -/
def prettyMembers (level : Nat) (isFirst : Bool) : List (String × Json) → String
  | [] => ""
  | (key, value) :: rest =>
    (if isFirst then "\n" else ",\n") ++ margin level ++ quote key ++ ": " ++ pretty level value
      ++ prettyMembers level false rest

end

end Json

end ProtoDecl.Listing
