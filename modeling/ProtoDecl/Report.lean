import ProtoDecl.Diagnostic
import ProtoDecl.Text.Basic

/-!
# Reports

A diagnostic drawn under the line of source text that it concerns:

```text
error: Expected field number, found ';'
 --> person.proto:2:17
  |
2 |   string name = ;
  |                 ^ expected number literal
```

A tab is shown as four blanks.  The mark never runs past the end of the line, and is at least one
character wide.  How the parts are emphasised is left open; `Paint.plain` and `Paint.coloured` are
two ways.
-/

namespace ProtoDecl.Report

/-! ## Emphasis -/

/-- How emphasis is shown: what becomes of a text that is bold, bold and red, or bold and blue. -/
structure Paint where
  bold : String → String
  red : String → String
  blue : String → String

/-- No emphasis at all. -/
def Paint.plain : Paint where
  bold := id
  red := id
  blue := id

/-! ## Lines -/

/-- How wide a character is shown. -/
def width (c : Char) : Nat :=
  if c = '\t' then 4 else 1

/-- How wide a text is shown. -/
def textWidth : List Char → Nat
  | [] => 0
  | c :: rest => width c + textWidth rest

/-- A line with its tabs as blanks. -/
def expandTabs (line : List Char) : List Char :=
  line.flatMap fun c => if c = '\t' then [' ', ' ', ' ', ' '] else [c]

/-- How far a mark stands from the beginning of the line, and how wide it is, for a span of
`length` bytes that begins at the given column. -/
def markOf (line : List Char) (column length : Nat) : Nat × Nat :=
  let before := column - 1
  let offset := textWidth (line.take before)
  let remaining := line.length - before
  (offset, max (min length remaining) 1)

/-- What would have been accepted, in words. -/
def hint (d : Diagnostic) : String :=
  if d.expected.isEmpty then ""
  else "expected " ++ " or ".intercalate (d.expected.map Kind.describe)

/-- A text of `n` equal characters. -/
def repeated (n : Nat) (c : Char) : String :=
  String.ofList (List.replicate n c)

/-- The line of a text that a diagnostic is about, if the text has it. -/
def quotedLine (source : String) (d : Diagnostic) : Option (List Char) :=
  (Text.lines source.toList)[d.span.line - 1]?

/-- A diagnostic with the line it is about. -/
def format (paint : Paint) (source fileName : String) (d : Diagnostic) : String :=
  let number := toString d.span.line
  let gutter := repeated number.length ' '
  let head := paint.red "error" ++ ": " ++ paint.bold d.message ++ "\n"
    ++ gutter ++ paint.blue "-->" ++ " " ++ fileName ++ ":" ++ d.span.place ++ "\n"
  match quotedLine source d with
  | none => head
  | some line =>
    let bar := paint.blue "|"
    let (offset, width) := markOf line d.span.column d.span.length
    head ++ gutter ++ " " ++ bar ++ "\n"
      ++ paint.blue number ++ " " ++ bar ++ " " ++ String.ofList (expandTabs line) ++ "\n"
      ++ gutter ++ " " ++ bar ++ " "
      ++ paint.red (repeated offset ' ' ++ repeated width '^') ++ " "
      ++ paint.red (hint d) ++ "\n"

/-- Several diagnostics, with an empty line between two. -/
def formatAll (paint : Paint) (source fileName : String) (ds : List Diagnostic) : String :=
  "\n".intercalate (ds.map (format paint source fileName))

/-! ## Terminals -/

/-- The sequence that ends every emphasis on a terminal. -/
def reset : String :=
  "\x1b[0m"

/-- A text in which every end of an emphasis takes up `start` again. -/
def resume (start : List Char) : List Char → List Char
  | '\x1b' :: '[' :: '0' :: 'm' :: rest =>
    ['\x1b', '[', '0', 'm'] ++ start ++ resume start rest
  | c :: rest => c :: resume start rest
  | [] => []

/-- A text with the emphasis that a terminal has for the given code. -/
def emphasise (code text : String) : String :=
  let start := "\x1b[" ++ code ++ "m"
  start ++ String.ofList (resume start.toList text.toList) ++ reset

/-- The emphasis of terminals. -/
def Paint.coloured : Paint where
  bold := emphasise "1"
  red := emphasise "1;31"
  blue := emphasise "1;34"

end ProtoDecl.Report
