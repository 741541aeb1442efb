import ProtoDecl.Schema.Error
import ProtoDecl.Token.Scan

/-!
# Diagnostics

Faults of a source text in the form in which they are reported, whatever stage found them.
-/

namespace ProtoDecl

/-- A fault of a source text. -/
structure Diagnostic where
  message : String
  span : Span
  /-- The kinds of token that would have been accepted, if that is known. -/
  expected : List Kind
deriving DecidableEq, Repr

namespace Diagnostic

/-- The diagnostic for a faulty piece of text. -/
def ofLexical (e : LexicalError) : Diagnostic :=
  ⟨e.message, e.span, []⟩

/-- The diagnostic for a fault in the sequence of tokens. -/
def ofSyntax (e : Schema.SyntaxError) : Diagnostic :=
  ⟨e.message, e.span, e.expected⟩

/-- The fault and its place on one line. -/
def display (d : Diagnostic) : String :=
  d.message ++ " at " ++ d.span.place

end Diagnostic

end ProtoDecl
