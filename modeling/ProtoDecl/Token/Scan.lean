import ProtoDecl.Token.Piece

/-!
# Tokens of a source text

`tokenize` gives the pieces of a text their spans and sorts them into tokens and faults.  Blanks
are dropped, every other piece becomes one token or one fault, and a token for the end of the file
closes the list.  A fault never stops the scan.

* `Place`, a line, a column and a byte offset, moved on by the characters passed over;
* `LexicalFault` and `LexicalError`, what is wrong and where;
* `Piece.locate`, the pieces with their spans;
* `tokenize`.
-/

namespace ProtoDecl

/-! ## Places -/

/-- A point between two characters of a text. -/
structure Place where
  /-- Counted from one. -/
  line : Nat
  /-- In characters, counted from one. -/
  column : Nat
  /-- In bytes. -/
  offset : Nat
deriving DecidableEq, Repr

namespace Place

/-- Where a text begins. -/
def origin : Place :=
  ⟨1, 1, 0⟩

/-- The place behind one further character. -/
def step (p : Place) (c : Char) : Place :=
  if c = '\n' then ⟨p.line + 1, 1, p.offset + c.utf8Size⟩
  else ⟨p.line, p.column + 1, p.offset + c.utf8Size⟩

/-- The place behind some further characters. -/
def advance (p : Place) (text : List Char) : Place :=
  text.foldl step p

@[simp] theorem advance_append (p : Place) (a b : List Char) :
    p.advance (a ++ b) = (p.advance a).advance b :=
  List.foldl_append

/-- The span of the characters `text`, which begin at `p`. -/
def spanOf (p : Place) (text : List Char) : Span :=
  ⟨p.line, p.column, p.offset, (p.advance text).offset⟩

end Place

/-! ## Faults -/

/-- What can be wrong with a piece of text. -/
inductive LexicalFault where
  | openComment
  | openText
  | unknown (c : Char)
deriving DecidableEq, Repr

/-- The wording of a fault. -/
def LexicalFault.message : LexicalFault → String
  | openComment => "Unterminated block comment"
  | openText => "Unterminated string literal"
  | unknown c => "Unknown character: " ++ c.toString

/-- A fault with the place of its first character. -/
structure LexicalError where
  fault : LexicalFault
  place : Place
deriving DecidableEq, Repr

namespace LexicalError

/-- The wording of the fault. -/
def message (e : LexicalError) : String :=
  e.fault.message

/-- The span by which the error is reported: one byte. -/
def span (e : LexicalError) : Span :=
  ⟨e.place.line, e.place.column, e.place.offset, e.place.offset + 1⟩

/-- The fault and its place on one line. -/
def display (e : LexicalError) : String :=
  e.message ++ " at " ++ e.span.place

end LexicalError

/-! ## The scan -/

namespace Piece

/-- The kind of token that a word is. -/
def kindOfWord (word : List Char) : Kind :=
  match Keyword.ofWord? word with
  | some k => .keyword k
  | none => .identifier

/-- The token that a piece at `p` is, if it is one. -/
def token? (p : Place) (piece : Piece) : Option Token :=
  let span := p.spanOf piece.chars
  let source := String.ofList piece.chars
  match piece.lexeme with
  | .comment => some ⟨.comment, source, span⟩
  | .text value => some ⟨.text, String.ofList value, span⟩
  | .number => some ⟨.number, source, span⟩
  | .word => some ⟨kindOfWord piece.chars, source, span⟩
  | .symbol mark => some ⟨.symbol mark, source, span⟩
  | .blank | .unknown _ | .openText | .openComment => none

/-- The fault that a piece at `p` is, if it is one. -/
def error? (p : Place) (piece : Piece) : Option LexicalError :=
  match piece.lexeme with
  | .unknown c => some ⟨.unknown c, p⟩
  | .openText => some ⟨.openText, p⟩
  | .openComment => some ⟨.openComment, p⟩
  | _ => none

/-- The pieces with their places, the first standing at `p`. -/
def locate (p : Place) : List Piece → List (Place × Piece)
  | [] => []
  | piece :: rest => (p, piece) :: locate (p.advance piece.chars) rest

end Piece

/-- The tokens and the faults of a text, each in the order of the text. -/
structure Scan where
  tokens : List Token
  errors : List LexicalError
deriving DecidableEq, Repr

/-- The token that closes a text which ends at `p`. -/
def Token.endOfFile (p : Place) : Token :=
  ⟨.endOfFile, "", p.spanOf []⟩

/-- The tokens and the faults of a source text. -/
def tokenize (source : String) : Scan :=
  let text := source.toList
  let located := Piece.locate .origin (Piece.split text)
  { tokens := located.filterMap (fun item => item.2.token? item.1)
      ++ [Token.endOfFile (Place.origin.advance text)]
    errors := located.filterMap fun item => item.2.error? item.1 }

end ProtoDecl
