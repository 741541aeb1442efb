/-!
# Spans of source text

A span says where a piece of schema text lies.  `line` and `column` count from one and name the
first character; `start` and `stop` are byte offsets, `stop` exclusive.

Spans are kept by every token, every node of a schema and every diagnostic.  Nothing forces
`start ≤ stop`: token lists may be made by hand, and the operations here are total on them.
-/

namespace ProtoDecl

/-- A region of source text. -/
structure Span where
  /-- Line of the first character, counted from one. -/
  line : Nat
  /-- Column of the first character, in characters, counted from one. -/
  column : Nat
  /-- Byte offset of the first character. -/
  start : Nat
  /-- Byte offset just past the last character. -/
  stop : Nat
deriving DecidableEq, Repr, Inhabited

namespace Span

/-- The span that begins where `a` begins and reaches at least to the end of `b`. -/
def through (a b : Span) : Span :=
  { a with stop := max b.stop a.stop }

/-- `a` with its end moved on to `offset`, if that lies further on. -/
def extendTo (a : Span) (offset : Nat) : Span :=
  { a with stop := max offset a.stop }

/-- Whether the bytes of `b` all lie in `a`. -/
def contains (a b : Span) : Bool :=
  decide (a.start ≤ b.start) && decide (b.stop ≤ a.stop)

/-- The number of bytes, as a 64-bit word: a span that ends before it starts goes once round. -/
def length (a : Span) : Nat :=
  if a.start ≤ a.stop then a.stop - a.start else a.stop + UInt64.size - a.start

/-- Whether the span holds no byte. -/
def isEmpty (a : Span) : Bool :=
  a.start == a.stop

/-- The empty span at the end of `a`. -/
def after (a : Span) : Span :=
  { a with start := a.stop }

/-- The place of the first character, written `line:column`. -/
def place (a : Span) : String :=
  toString a.line ++ ":" ++ toString a.column

end Span

end ProtoDecl
