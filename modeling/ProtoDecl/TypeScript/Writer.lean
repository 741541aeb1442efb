/-!
# Writing indented declarations

A writer keeps the text written so far, the depth of the current scope, and for every open scope
whether it already holds a declaration.  The last is what puts exactly one empty line between two
declarations of a scope.
-/

namespace ProtoDecl.TypeScript

/-- Output with its indentation. -/
structure Writer where
  /-- Blanks for each level of depth. -/
  indentSize : Nat
  /-- What has been written. -/
  output : String
  /-- How many scopes are open. -/
  depth : Nat
  /-- For every scope, the innermost first, whether it holds a declaration; the last entry is for
  the file itself. -/
  started : List Bool

namespace Writer

/-- A writer that has written nothing. -/
def empty (indentSize : Nat) : Writer :=
  { indentSize, output := "", depth := 0, started := [false] }

/-- Prepares for a declaration in the current scope: an empty line goes before it unless it is the
first. -/
def beginDeclaration (w : Writer) : Writer :=
  match w.started with
  | [] => w
  | isStarted :: outer =>
    { w with output := w.output ++ (if isStarted then "\n" else ""), started := true :: outer }

/-- The blanks before a line at the given depth. -/
def margin (indentSize depth : Nat) : String :=
  String.ofList (List.replicate (depth * indentSize) ' ')

/-- Writes a line. -/
def line (w : Writer) (text : String) : Writer :=
  { w with output := w.output ++ margin w.indentSize w.depth ++ text ++ "\n" }

/-- Writes several lines. -/
def lines (w : Writer) (texts : List String) : Writer :=
  texts.foldl line w

/-- Writes the header of a scope and enters it. -/
def openScope (w : Writer) (header : String) : Writer :=
  let w := w.line (header ++ " \x7b")
  { w with depth := w.depth + 1, started := false :: w.started }

/-- Leaves a scope and closes it.  The file itself is never left. -/
def closeScope (w : Writer) : Writer :=
  let started := if w.started.length > 1 then w.started.tail else w.started
  { w with depth := w.depth - 1, started }.line "\x7d"

/-- Writes a declaration with the given lines in its scope, all on one line if there are none. -/
def declaration (w : Writer) (header : String) (texts : List String) : Writer :=
  let w := w.beginDeclaration
  if texts.isEmpty then w.line (header ++ " \x7b\x7d")
  else ((w.openScope header).lines texts).closeScope

end Writer

end ProtoDecl.TypeScript
