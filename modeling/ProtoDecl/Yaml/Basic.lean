/-!
# YAML values

What a YAML document holds, and the places in its text.

* `Node`, a value; a scalar keeps its text and whether it was written without quotes;
* `Cursor`, a place in a text with what is left of it;
* `Cursor.skip`, the way over blanks, comments and ends of lines.
-/

namespace ProtoDecl.Yaml

/-! ## Values -/

/-- A value. -/
inductive Node where
  | scalar (plain : Bool) (text : String)
  | sequence (items : List Node)
  | mapping (entries : List (Node × Node))

/-- The value that stands where none is written. -/
def Node.empty : Node :=
  .scalar true ""

/-! ## Characters -/

/-- Whether a character ends a line, in a text whose line ends are uniform. -/
def isBreak (c : Char) : Bool :=
  c = '\n' || c = '\u2028' || c = '\u2029'

/-- Whether a character is a blank within a line. -/
def isBlank (c : Char) : Bool :=
  c = ' ' || c = '\t'

/-- Whether a word ends in front of the given text. -/
def endsWord : List Char → Bool
  | [] => true
  | c :: _ => isBlank c || isBreak c

/-- A text with all common line ends written as line feeds. -/
def uniform : List Char → List Char
  | [] => []
  | '\r' :: '\n' :: rest => '\n' :: uniform rest
  | c :: rest => (if c = '\r' || c = '\u0085' then '\n' else c) :: uniform rest

/-- Whether a character may stand in a document: no control characters but the tab and line ends. -/
def isAllowed (c : Char) : Bool :=
  c = '\t' || isBreak c || (' ' ≤ c && c ≤ '~') || ('\u00a0' ≤ c && c ≤ '\ufffd')
    || 0x10000 ≤ c.toNat

/-! ## Places -/

/-- A place in a text. -/
structure Cursor where
  /-- What is left of the text. -/
  rest : List Char
  line : Nat
  column : Nat
  /-- Whether a block collection may begin here. -/
  fresh : Bool

namespace Cursor

/-- The place behind some characters of the line. -/
def drop (c : Cursor) (count : Nat) : Cursor :=
  { c with rest := c.rest.drop count, column := c.column + count }

/-- The same place, from which no block collection may begin. -/
def stale (c : Cursor) : Cursor :=
  { c with fresh := false }

/-- Whether the given three characters stand alone at the beginning of the line. -/
def atMark (mark : List Char) (c : Cursor) : Bool :=
  c.column = 0 && mark.isPrefixOf c.rest && endsWord (c.rest.drop 3)

/-- Whether a document ends or begins here. -/
def atMarker (c : Cursor) : Bool :=
  c.atMark ['-', '-', '-'] || c.atMark ['.', '.', '.']

/-- Whether the document holds nothing more. -/
def atEnd (c : Cursor) : Bool :=
  c.rest.isEmpty || c.atMarker

/-- Whether an item of a block sequence begins here. -/
def atItem (c : Cursor) : Bool :=
  match c.rest with
  | '-' :: rest => endsWord rest
  | _ => false

/-- Whether the given character stands here. -/
def at? (ch : Char) (c : Cursor) : Bool :=
  c.rest.head? = some ch

/-- The way over blanks, comments and ends of lines.  Outside brackets the beginning of a line is
fresh, and where it is fresh a tab is no blank. -/
def skipText (inBrackets inComment : Bool) (line column : Nat) (fresh : Bool) :
    List Char → Cursor
  | [] => ⟨[], line, column, fresh⟩
  | c :: rest =>
    if isBreak c then skipText inBrackets false (line + 1) 0 (fresh || !inBrackets) rest
    else if inComment || c = '#' then skipText inBrackets true line (column + 1) fresh rest
    else if c = ' ' || (c = '\t' && (inBrackets || !fresh)) then
      skipText inBrackets false line (column + 1) fresh rest
    else ⟨c :: rest, line, column, fresh⟩

/-- The next place where something stands. -/
def skip (inBrackets : Bool) (c : Cursor) : Cursor :=
  skipText inBrackets false c.line c.column c.fresh c.rest

end Cursor

end ProtoDecl.Yaml
