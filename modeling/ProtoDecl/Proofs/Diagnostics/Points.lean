import ProtoDecl.Compile
import ProtoDecl.Proofs.Errors
import ProtoDecl.Proofs.Scan.Places
import ProtoDecl.Proofs.Spans.Order

/-!
# Where diagnostics point

Whatever is wrong with a source, it is reported at a place in the source.  `Points` says that a span
is such a place: it lies in the source, it starts between two characters, and its line and column
are those of its start.

Tokens and faulty pieces point to their first character, which is never blank (`token_points`,
`lexicalError_points`), and the end of the file points behind the last one.  Syntax errors are
reported where tokens are, so that all diagnostics point to such places (`compile_points`).
-/

namespace ProtoDecl

open Text (afterLast isBlank)

/-- A span that starts between two parts of a source. -/
structure Points (source : String) (s : Span) (before after : List Char) : Prop where
  split : source.toList = before ++ after
  start : s.start = bytes before
  ordered : s.start ≤ s.stop
  inside : s.stop ≤ source.utf8ByteSize
  /-- The line breaks before the start are counted, from one. -/
  line : s.line = 1 + before.count '\n'
  /-- The characters behind the last of them are counted, from one. -/
  column : s.column = 1 + (afterLast (· == '\n') before).length

/-- A text does not begin with a blank. -/
def Visible (text : List Char) : Prop :=
  ∀ c ∈ text.head?, isBlank c = false

variable {source : String} {before after : List Char} {s : Span}

namespace Points

/-- Counting along the first part leads to the span. -/
theorem of_advance (hsplit : source.toList = before ++ after) (stop : Nat)
    (hstop : bytes before ≤ stop) (hsize : stop ≤ source.utf8ByteSize) :
    let p := Place.origin.advance before
    Points source ⟨p.line, p.column, p.offset, stop⟩ before after := by
  have hoffset : (Place.origin.advance before).offset = bytes before := by
    rw [Place.offset_advance]
    exact Nat.zero_add _
  refine ⟨hsplit, hoffset, ?_, hsize, Place.line_advance .origin before,
    Place.column_origin before⟩
  rw [hoffset]
  exact hstop

/-- A span that reaches further, but not out of the source. -/
theorem through (h : Points source s before after) {t : Span}
    (ht : t.stop ≤ source.utf8ByteSize) : Points source (s.through t) before after where
  split := h.split
  start := h.start
  ordered := Nat.le_trans h.ordered (Nat.le_max_right _ _)
  inside := Nat.max_le.2 ⟨ht, h.inside⟩
  line := h.line
  column := h.column

end Points

/-! ## Pieces -/

namespace Piece

theorem visible_next (c : Char) (rest : List Char) (h : (next c rest).1.lexeme ≠ .blank) :
    Visible (next c rest).1.chars := by
  have hfirst : (next c rest).1.chars.head? = some c := by
    have happend := next_chars_append c rest
    cases hchars : (next c rest).1.chars with
    | nil => exact absurd hchars (next_chars_ne_nil c rest)
    | cons d chars =>
      rw [hchars, List.cons_append] at happend
      rw [List.head?_cons, (List.cons.inj happend).1]
  intro d hd
  rw [hfirst, Option.mem_some_iff] at hd
  subst hd
  -- A piece that begins with a blank is blank.
  by_contra hblank
  have hblank : isBlank c = true := by simpa using hblank
  exact h (by rw [next, if_pos hblank])

/-- What holds of every piece that is cut off, holds of all pieces of a text. -/
theorem of_mem_split {P : Piece → Prop} (hnext : ∀ c rest, P (next c rest).1) {text : List Char}
    {piece : Piece} (h : piece ∈ split text) : P piece := by
  fun_induction split text with
  | case1 => exact absurd h List.not_mem_nil
  | case2 c rest ih =>
    cases List.mem_cons.1 h with
    | inl hfirst =>
      subst hfirst
      exact hnext c rest
    | inr hrest => exact ih hrest

theorem visible_of_mem_split {text : List Char} {piece : Piece} (h : piece ∈ split text)
    (hlexeme : piece.lexeme ≠ .blank) : Visible piece.chars :=
  of_mem_split (P := fun piece => piece.lexeme ≠ .blank → Visible piece.chars) visible_next h
    hlexeme

end Piece

/-- A piece of a source that is not blank points to its first character, whatever part of it is
reported. -/
theorem points_of_mem_located {item : Place × Piece} (h : item ∈ located source)
    (hlexeme : item.2.lexeme ≠ .blank) {n : Nat} (hn : n ≤ bytes item.2.chars) :
    ∃ before after,
      Points source ⟨item.1.line, item.1.column, item.1.offset, item.1.offset + n⟩ before after ∧
        Visible after := by
  obtain ⟨before, after, htext, hplace, hne, -⟩ := Piece.mem_locate_split h
  have hvisible := Piece.visible_of_mem_split (Piece.mem_of_mem_locate h) hlexeme
  have hsize := stop_le_of_mem_located h
  have hsplit : source.toList = before ++ (item.2.chars ++ after) := by
    rw [htext, List.append_assoc]
  have hoffset : item.1.offset = bytes before := by
    rw [hplace, Place.offset_advance]
    exact Nat.zero_add _
  refine ⟨before, item.2.chars ++ after, ?_, ?_⟩
  · have hpoints := Points.of_advance hsplit (item.1.offset + n) (by omega) (by omega)
    rw [← hplace] at hpoints
    exact hpoints
  · intro c hc
    cases hchars : item.2.chars with
    | nil => exact absurd hchars hne
    | cons d chars =>
      rw [hchars] at hc hvisible
      exact hvisible c hc

theorem Piece.lexeme_of_token? {p : Place} {piece : Piece} {t : Token}
    (h : piece.token? p = some t) : piece.lexeme ≠ .blank := by
  intro hblank
  simp [token?, hblank] at h

theorem Piece.lexeme_of_error? {p : Place} {piece : Piece} {e : LexicalError}
    (h : piece.error? p = some e) : piece.lexeme ≠ .blank := by
  intro hblank
  simp [error?, hblank] at h

/-- A token points to its first character, and the end of the file behind the last one. -/
theorem token_points {t : Token} (h : t ∈ (tokenize source).tokens) :
    ∃ before after, Points source t.span before after ∧ Visible after := by
  rcases token_cases h with ⟨item, hitem, ht⟩ | rfl
  · have hpoints := points_of_mem_located hitem (Piece.lexeme_of_token? ht) (Nat.le_refl _)
    rw [Piece.span_of_token? ht, Place.spanOf, Place.offset_advance]
    exact hpoints
  · have hsplit : source.toList = source.toList ++ [] := (List.append_nil _).symm
    refine ⟨source.toList, [], ?_, nofun⟩
    have hpoints := Points.of_advance hsplit _ (Nat.le_refl _) (bytes_toList source).le
    rw [Token.endOfFile, Place.spanOf]
    have hoffset : (Place.origin.advance source.toList).offset = bytes source.toList := by
      rw [Place.offset_advance]
      exact Nat.zero_add _
    rw [← hoffset] at hpoints
    exact hpoints

/-- A fault points to the first character of its piece. -/
theorem lexicalError_points {e : LexicalError} (h : e ∈ (tokenize source).errors) :
    ∃ before after, Points source e.span before after ∧ Visible after := by
  obtain ⟨item, hitem, he⟩ := List.mem_filterMap.1 h
  obtain ⟨_, -, hne, -⟩ := stands_of_mem_located hitem
  have hpoints := points_of_mem_located hitem (Piece.lexeme_of_error? he) (bytes_pos hne)
  rw [LexicalError.span, Piece.place_of_error? he]
  exact hpoints

namespace Schema

/-! ## Syntax errors -/

theorem closeOf_tokenize (source : String) :
    closeOf (tokenize source).tokens = Token.endOfFile (Place.origin.advance source.toList) := by
  have hopen : ∀ t ∈ (located source).filterMap (fun item => item.2.token? item.1),
      Cursor.isClose t = false := by
    intro t ht
    obtain ⟨item, -, hitem⟩ := List.mem_filterMap.1 ht
    exact Cursor.isClose_eq_false (Piece.kind_ne_of_token? hitem)
  rw [tokenize_tokens, closeOf_closed hopen rfl]

theorem closeOf_mem (source : String) :
    closeOf (tokenize source).tokens ∈ (tokenize source).tokens := by
  rw [closeOf_tokenize, tokenize_tokens]
  exact List.mem_append_right _ List.mem_cons_self

/-- A syntax error points to a token, or to the first of several. -/
theorem syntaxError_points {e : SyntaxError} (h : e ∈ (parse (tokenize source).tokens).errors) :
    ∃ before after, Points source e.span before after ∧ Visible after := by
  have hspan := (parse_justified _ e h).span
  rw [Cursor.view_ofTokens, Cursor.eof_ofTokens] at hspan
  rcases hspan with ⟨t, ht, hspan⟩ | hspan | ⟨-, t, ht, u, hu, hspan⟩
  · rw [hspan]
    exact token_points (mem_of_mem_significant ht)
  · rw [hspan]
    exact token_points (closeOf_mem source)
  · obtain ⟨before, after, hpoints, hvisible⟩ := token_points (mem_of_mem_significant ht)
    obtain ⟨_, _, hlast, -⟩ := token_points (mem_of_mem_significant hu)
    rw [hspan]
    exact ⟨before, after, hpoints.through hlast.inside, hvisible⟩

end Schema

/-! ## Diagnostics -/

theorem mem_compile_errors {options : TypeScript.Options} {d : Diagnostic}
    (h : d ∈ (compile source options).errors) :
    (∃ e ∈ (tokenize source).errors, d = .ofLexical e) ∨
      ∃ e ∈ (Schema.parse (tokenize source).tokens).errors, d = .ofSyntax e := by
  unfold compile readSchema at h
  by_cases hlexical : (tokenize source).errors.isEmpty = true
  · by_cases hsyntax : (Schema.parse (tokenize source).tokens).errors.isEmpty = true
    · simp [hlexical, hsyntax] at h
    · simp only [hlexical, hsyntax, Bool.not_true, Bool.not_false, if_true] at h
      obtain ⟨e, he, rfl⟩ := List.mem_map.1 h
      exact .inr ⟨e, he, rfl⟩
  · simp only [hlexical, Bool.not_false, if_true] at h
    obtain ⟨e, he, rfl⟩ := List.mem_map.1 h
    exact .inl ⟨e, he, rfl⟩

/-- Every diagnostic points to a place in the source where a visible character stands, or to its
end. -/
theorem compile_points {options : TypeScript.Options} {d : Diagnostic}
    (h : d ∈ (compile source options).errors) :
    ∃ before after, Points source d.span before after ∧ Visible after := by
  rcases mem_compile_errors h with ⟨e, he, rfl⟩ | ⟨e, he, rfl⟩
  · exact lexicalError_points he
  · exact Schema.syntaxError_points he

end ProtoDecl
