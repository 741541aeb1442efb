import Mathlib.Data.List.Induction
import ProtoDecl.Proofs.Scan.Tokens
import ProtoDecl.Text.Basic

/-!
# Lines and columns

A place counts lines, columns and bytes along the text that was passed over.  This file says what
the three counts are, and how they change when the counting starts elsewhere.

* `Place.line_advance` and `Place.column_origin`: the line is told by the line breaks that were
  passed, and the column by the characters behind the last of them;
* `Place.moved`: a place some lines and bytes further on, in the same column.  Passing over a text
  commutes with it (`advance_moved`), so that what is located from a moved place is what is located
  from the place itself, moved (`Piece.locate_moved`).
-/

namespace ProtoDecl

open Text (afterLast)

namespace Place

/-! ## What the counts are -/

theorem line_step (p : Place) (c : Char) :
    (p.step c).line = p.line + if c = '\n' then 1 else 0 := by
  unfold step
  split <;> simp

theorem line_advance (p : Place) (text : List Char) :
    (p.advance text).line = p.line + text.count '\n' := by
  induction text generalizing p with
  | nil => rfl
  | cons c text ih =>
    have hrest := ih (p.step c)
    rw [line_step] at hrest
    rw [List.count_cons, show p.advance (c :: text) = (p.step c).advance text from rfl, hrest]
    by_cases hc : c = '\n'
    · simp [hc]
      omega
    · simp [hc]

/-- What follows the last line break, when one more character is passed. -/
theorem afterLast_concat (text : List Char) (c : Char) :
    afterLast (· == '\n') (text ++ [c]) =
      if c = '\n' then [] else afterLast (· == '\n') text ++ [c] := by
  unfold afterLast
  rw [List.reverse_append, List.reverse_singleton, List.singleton_append]
  by_cases hc : c = '\n'
  · simp [hc]
  · simp [hc]

/-- The column counts the characters behind the last line break. -/
theorem column_origin (text : List Char) :
    (origin.advance text).column = 1 + (afterLast (· == '\n') text).length := by
  induction text using List.reverseRecOn with
  | nil => rfl
  | append_singleton text c ih =>
    rw [advance_append, afterLast_concat]
    change ((origin.advance text).step c).column = _
    unfold step
    by_cases hc : c = '\n'
    · simp [hc]
    · simp [hc, ih]
      omega

/-! ## Counting from elsewhere -/

/-- The place that lies some lines and bytes further on. -/
def moved (p : Place) (lines bytes : Nat) : Place :=
  ⟨p.line + lines, p.column, p.offset + bytes⟩

variable (lines bytes : Nat)

theorem step_moved (p : Place) (c : Char) :
    (p.moved lines bytes).step c = (p.step c).moved lines bytes := by
  unfold step moved
  by_cases hc : c = '\n'
  · simp only [hc, if_true, Place.mk.injEq, true_and]
    omega
  · simp only [hc, if_false, Place.mk.injEq, true_and]
    omega

theorem advance_moved (p : Place) (text : List Char) :
    (p.moved lines bytes).advance text = (p.advance text).moved lines bytes := by
  induction text generalizing p with
  | nil => rfl
  | cons c text ih =>
    change ((p.moved lines bytes).step c).advance text = ((p.step c).advance text).moved lines bytes
    rw [step_moved, ih]

/-- Behind a line break, counting starts anew but for the lines and the bytes. -/
theorem step_origin (text : List Char) :
    (origin.advance text).step '\n' =
      origin.moved (1 + text.count '\n') (ProtoDecl.bytes text + 1) := by
  have hline := line_advance origin text
  have hoffset := offset_advance origin text
  have hsize : ('\n' : Char).utf8Size = 1 := by decide
  unfold step moved
  rw [if_pos rfl, hline, hoffset, hsize]
  simp only [origin, Place.mk.injEq, true_and]
  omega

end Place

/-- The span that lies some lines and bytes further on. -/
def Span.moved (s : Span) (lines bytes : Nat) : Span :=
  ⟨s.line + lines, s.column, s.start + bytes, s.stop + bytes⟩

/-- The token that stands some lines and bytes further on. -/
def Token.moved (t : Token) (lines bytes : Nat) : Token :=
  { t with span := t.span.moved lines bytes }

/-- The error that is found some lines and bytes further on. -/
def LexicalError.moved (e : LexicalError) (lines bytes : Nat) : LexicalError :=
  { e with place := e.place.moved lines bytes }

section
variable (lines bytes : Nat)

theorem Place.spanOf_moved (p : Place) (text : List Char) :
    (p.moved lines bytes).spanOf text = (p.spanOf text).moved lines bytes := by
  unfold spanOf
  rw [advance_moved]
  rfl

theorem Token.endOfFile_moved (p : Place) :
    Token.endOfFile (p.moved lines bytes) = (Token.endOfFile p).moved lines bytes := by
  unfold Token.endOfFile
  rw [Place.spanOf_moved]
  rfl

namespace Piece

theorem token?_moved (p : Place) (piece : Piece) :
    piece.token? (p.moved lines bytes) = (piece.token? p).map (·.moved lines bytes) := by
  unfold token?
  rw [Place.spanOf_moved]
  cases piece.lexeme <;> rfl

theorem error?_moved (p : Place) (piece : Piece) :
    piece.error? (p.moved lines bytes) = (piece.error? p).map (·.moved lines bytes) := by
  unfold error?
  cases piece.lexeme <;> rfl

theorem locate_moved (p : Place) (pieces : List Piece) :
    locate (p.moved lines bytes) pieces =
      (locate p pieces).map fun item => (item.1.moved lines bytes, item.2) := by
  induction pieces generalizing p with
  | nil => rfl
  | cons piece pieces ih =>
    rw [locate, locate, Place.advance_moved, ih, List.map_cons]

theorem locate_append (p : Place) (first second : List Piece) :
    locate p (first ++ second) =
      locate p first ++ locate (p.advance (first.flatMap chars)) second := by
  induction first generalizing p with
  | nil => rfl
  | cons piece first ih =>
    rw [List.cons_append, locate, locate, ih, List.flatMap_cons, Place.advance_append,
      List.cons_append]

/-- Pieces that stand elsewhere are the same tokens elsewhere. -/
theorem tokens_moved (items : List (Place × Piece)) :
    (items.map fun item => (item.1.moved lines bytes, item.2)).filterMap
        (fun item => item.2.token? item.1) =
      (items.filterMap fun item => item.2.token? item.1).map (·.moved lines bytes) := by
  rw [List.filterMap_map, List.map_filterMap]
  exact List.filterMap_congr fun item _ => token?_moved lines bytes item.1 item.2

theorem errors_moved (items : List (Place × Piece)) :
    (items.map fun item => (item.1.moved lines bytes, item.2)).filterMap
        (fun item => item.2.error? item.1) =
      (items.filterMap fun item => item.2.error? item.1).map (·.moved lines bytes) := by
  rw [List.filterMap_map, List.map_filterMap]
  exact List.filterMap_congr fun item _ => error?_moved lines bytes item.1 item.2

end Piece

end

end ProtoDecl
