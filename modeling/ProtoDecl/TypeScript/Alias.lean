import ProtoDecl.Schema.Basic
import ProtoDecl.Text.Basic

/-!
# Aliases of imports

Every import that is not passed on gets a name for what it imports.  The name is made from the last
part of the path, in small letters with underscores, and numbered if an earlier import of the file
has taken it.
-/

namespace ProtoDecl.TypeScript

open Schema

/-- The last part of a path, without its ending. -/
def stem (path : List Char) : List Char :=
  let last := Text.afterLast (fun c => c == '/' || c == '\\') path
  (Text.dropEnd? ".proto".toList last).getD last

/-- A text as a word in small letters.  An underscore goes before a capital that follows a small
letter or a digit, and in the place of every other character.  The flag says whether a small letter
or a digit came before. -/
def snake (afterSmall : Bool) : List Char → List Char
  | [] => []
  | c :: rest =>
    if c.isUpper then
      (if afterSmall then ['_'] else []) ++ c.toLower :: snake false rest
    else if c.isAlphanum then
      c :: snake true rest
    else
      '_' :: snake false rest

/-- A word made fit to be a name: not empty, and not beginning with a digit. -/
def asName : List Char → List Char
  | [] => ['_']
  | c :: rest => if c.isDigit then '_' :: c :: rest else c :: rest

/-- The alias that an import would like to have. -/
def wantedAlias (path : String) : String :=
  String.ofList (asName (snake false (stem path.toList)))

/-- The first of `base`, `base2`, `base3`, … that is not taken.  One more name is tried than are
taken, so one is free. -/
def freeAlias (taken : List String) (base : String) : String :=
  let numbered := (List.range taken.length).map fun i => base ++ toString (i + 2)
  ((base :: numbered).find? fun name => !taken.contains name).getD base

/-- The alias of each import of a file in turn, where it has one.  A public import has none. -/
def aliases (taken : List String) : List Import → List (Option String)
  | [] => []
  | i :: rest =>
    match i.modifier with
    | some .publicly => none :: aliases taken rest
    | _ =>
      let name := freeAlias taken (wantedAlias i.path.value)
      some name :: aliases (name :: taken) rest

end ProtoDecl.TypeScript
