import ProtoDecl.Schema.Error

/-!
# Cursors

A cursor is a point in a list of tokens, together with what the reading has found wrong so far.

Comments mean nothing to the reading, but they stay in the list: the cursor steps over them when it
moves, and looks past them when it looks ahead.  Reading ends at the first token that closes the
file, wherever in the list that is.  A list that does not end with such a token is closed just
behind its last one.

* `Cursor.ofTokens`, the cursor at the beginning of a list;
* `current`, `peek` and `advance`, which look and move;
* `report` and `spanFrom`;
* `startsNested`, `startsExtend`, `startsMap`, `startsReserved` and `startsStream`, which look ahead
  far enough to tell a declaration from a field or a type that has the name of a keyword;
* `Leads`, how cursors may move: onward in the same list, with more errors.
-/

namespace ProtoDecl.Schema

/-- A point in a list of tokens. -/
structure Cursor where
  /-- The tokens from the next one on, all but the last of the list. -/
  ahead : List Token
  /-- The last token of the list. -/
  close : Token
  /-- The byte offset just past the last token read. -/
  lastEnd : Nat
  /-- The errors found, in order. -/
  errors : List SyntaxError
  /-- The list ends with the end of the file. -/
  close_kind : close.kind = .endOfFile
  /-- The cursor does not rest on a comment. -/
  rests : ∀ t ∈ ahead.head?, t.kind ≠ .comment

namespace Cursor

/-- Whether a token closes the file. -/
def isClose (t : Token) : Bool :=
  t.kind == .endOfFile

/-- Whether a token is a comment. -/
def isComment (t : Token) : Bool :=
  t.kind == .comment

/-- The end of the file behind the last of some tokens. -/
def closeAfter (tokens : List Token) : Token :=
  ⟨.endOfFile, "", (tokens.getLast?.map fun t => t.span.after).getD ⟨1, 1, 0, 0⟩⟩

/-- Whether the last token of a list closes the file. -/
def isClosed (tokens : List Token) : Bool :=
  tokens.getLast?.any isClose

/-- The tokens before the one that closes the list, which is supplied if it is missing. -/
def inner (tokens : List Token) : List Token :=
  if isClosed tokens then tokens.dropLast else tokens

/-- The token that closes the list, supplied if it is missing. -/
def closing (tokens : List Token) : Token :=
  if isClosed tokens then tokens.getLast?.getD (closeAfter tokens) else closeAfter tokens

theorem closing_kind (tokens : List Token) : (closing tokens).kind = .endOfFile := by
  unfold closing
  split
  · rename_i h
    cases hlast : tokens.getLast? with
    | none => simp [isClosed, hlast] at h
    | some t => simpa [isClosed, hlast, isClose] using h
  · rfl

theorem dropWhile_isComment_rests (tokens : List Token) :
    ∀ t ∈ (tokens.dropWhile isComment).head?, t.kind ≠ .comment := by
  intro t ht
  have h := List.head?_dropWhile_not isComment tokens
  rw [Option.mem_def.1 ht] at h
  simpa [isComment] using h

/-- The cursor at the beginning of a list of tokens. -/
def ofTokens (tokens : List Token) : Cursor where
  ahead := (inner tokens).dropWhile isComment
  close := closing tokens
  lastEnd := 0
  errors := []
  close_kind := closing_kind tokens
  rests := dropWhile_isComment_rests (inner tokens)

/-- How many tokens, comments included, stand before the last one. -/
def remaining (c : Cursor) : Nat :=
  c.ahead.length

/-- The next token. -/
def current (c : Cursor) : Token :=
  c.ahead.headD c.close

/-- The tokens ahead that are no comments. -/
def visible (c : Cursor) : List Token :=
  c.ahead.filter fun t => !isComment t

/-- The token `n` places behind the next one, comments not counted; beyond the last there is only
the end of the file. -/
def peek (c : Cursor) (n : Nat) : Token :=
  c.visible.getD n c.close

/-- The cursor behind the next token and the comments that follow it.  An end of the file is never
passed. -/
def advance (c : Cursor) : Cursor :=
  match c.ahead with
  | [] => c
  | t :: rest =>
    if isClose t then c
    else { c with
      ahead := rest.dropWhile isComment
      lastEnd := t.span.stop
      rests := dropWhile_isComment_rests rest }

/-- Adds an error. -/
def report (c : Cursor) (e : SyntaxError) : Cursor :=
  { c with errors := c.errors ++ [e] }

/-- The span from `start` through the last token read. -/
def spanFrom (c : Cursor) (start : Span) : Span :=
  start.extendTo c.lastEnd

/-! ## Looking ahead -/

/-- Whether the cursor is on a keyword that a name and an opening brace follow. -/
def startsNested (c : Cursor) : Bool :=
  (c.peek 1).kind.isName && (c.peek 2).kind == .symbol .openBrace

/-- Whether a list of tokens begins with names divided by dots and then an opening brace. -/
def namesThenBrace : List Token → Bool
  | name :: next :: rest =>
    name.kind.isName && (next.kind == .symbol .openBrace
      || (next.kind == .symbol .dot && namesThenBrace rest))
  | _ => false

/-- Whether the cursor is on a keyword that a dotted name, possibly with a leading dot, and an
opening brace follow. -/
def startsExtend (c : Cursor) : Bool :=
  match c.visible.tail with
  | [] => false
  | t :: rest => if t.kind == .symbol .dot then namesThenBrace rest else namesThenBrace (t :: rest)

/-- Whether the cursor is on the word `map` with its arguments behind it, and not on a type of that
name. -/
def startsMap (c : Cursor) : Bool :=
  c.current.kind == .keyword .map && (c.peek 1).kind == .symbol .openAngle

/-- Whether the cursor is on a reserved list: its keyword, then a number or a string. -/
def startsReserved (c : Cursor) : Bool :=
  c.current.kind == .keyword .reserved
    && ((c.peek 1).kind == .number || (c.peek 1).kind == .text)

/-- Whether the cursor is on the word `stream` before a type, and not on a type of that name. -/
def startsStream (c : Cursor) : Bool :=
  c.current.kind == .keyword .stream
    && ((c.peek 1).kind.isName || (c.peek 1).kind == .symbol .dot)

/-! ## Moving -/

/-- The cursor after `n` moves. -/
def passing (c : Cursor) : Nat → Cursor
  | 0 => c
  | n + 1 => c.advance.passing n

/-- The cursor after `n` moves and with further errors. -/
def after (c : Cursor) (n : Nat) (new : List SyntaxError) : Cursor :=
  { c.passing n with errors := c.errors ++ new }

/-- `d` stands where some moves from `c` lead, and has the errors of `c` before its own. -/
def Leads (c d : Cursor) : Prop :=
  ∃ n new, d = c.after n new

@[simp] theorem advance_errors (c : Cursor) : c.advance.errors = c.errors := by
  unfold advance
  split
  · rfl
  · split <;> rfl

@[simp] theorem passing_errors (c : Cursor) (n : Nat) : (c.passing n).errors = c.errors := by
  induction n generalizing c with
  | zero => rfl
  | succ n ih => simp [passing, ih]

@[simp] theorem after_errors (c : Cursor) (n : Nat) (new : List SyntaxError) :
    (c.after n new).errors = c.errors ++ new :=
  rfl

theorem after_zero (c : Cursor) : c.after 0 [] = c := by
  simp [after, passing]

theorem after_one (c : Cursor) : c.after 1 [] = c.advance := by
  simp only [after, passing, List.append_nil]
  rw [← advance_errors]

/-- Errors do not change where a move leads. -/
theorem advance_after_zero (c : Cursor) (new : List SyntaxError) :
    (c.after 0 new).advance = c.advance.after 0 new := by
  unfold advance after passing
  simp only
  split
  · rfl
  · split <;> rfl

theorem passing_after_zero (c : Cursor) (n : Nat) (new : List SyntaxError) :
    (c.after 0 new).passing n = (c.passing n).after 0 new := by
  induction n generalizing c with
  | zero => rfl
  | succ n ih => rw [passing, advance_after_zero, ih, passing]

theorem passing_add (c : Cursor) (m n : Nat) : (c.passing m).passing n = c.passing (m + n) := by
  induction m generalizing c with
  | zero => simp [passing]
  | succ m ih => rw [Nat.succ_add, passing, passing, ih]

theorem after_eq (c : Cursor) (n : Nat) (new : List SyntaxError) :
    c.after n new = (c.passing n).after 0 new := by
  simp [after, passing]

theorem after_after (c : Cursor) (m n : Nat) (a b : List SyntaxError) :
    (c.after m a).after n b = c.after (m + n) (a ++ b) := by
  rw [after_eq (c.after m a), after_eq c m, passing_after_zero, passing_add]
  simp [after, passing]

theorem Leads.refl (c : Cursor) : c.Leads c :=
  ⟨0, [], (after_zero c).symm⟩

theorem Leads.trans {c d e : Cursor} (h : c.Leads d) (h' : d.Leads e) : c.Leads e := by
  obtain ⟨m, a, rfl⟩ := h
  obtain ⟨n, b, rfl⟩ := h'
  exact ⟨m + n, a ++ b, after_after c m n a b⟩

theorem leads_advance (c : Cursor) : c.Leads c.advance :=
  ⟨1, [], (after_one c).symm⟩

theorem leads_report (c : Cursor) (e : SyntaxError) : c.Leads (c.report e) :=
  ⟨0, [e], rfl⟩

theorem remaining_advance_le (c : Cursor) : c.advance.remaining ≤ c.remaining := by
  unfold advance remaining
  split
  · simp
  · rename_i t rest h
    split
    · simp
    · have := (List.dropWhile_suffix isComment (l := rest)).length_le
      simp only [h, List.length_cons]
      omega

theorem remaining_passing_le (c : Cursor) (n : Nat) : (c.passing n).remaining ≤ c.remaining := by
  induction n generalizing c with
  | zero => exact Nat.le_refl _
  | succ n ih => exact Nat.le_trans (ih c.advance) (remaining_advance_le c)

theorem Leads.remaining_le {c d : Cursor} (h : c.Leads d) : d.remaining ≤ c.remaining := by
  obtain ⟨n, new, rfl⟩ := h
  exact remaining_passing_le c n

end Cursor

end ProtoDecl.Schema
