import ProtoDecl.Proofs.Diagnostics.Drawn
import ProtoDecl.Proofs.Scan.Render

/-!
# How many carets are drawn

Under the text that a syntax error is about, one caret is drawn for each byte of the text, but none
beyond the line.  So there is one for each character of plain text.  A tab is shown four wide and
has one caret; a character of several bytes has several, as long as the line goes on.

* `Piece.last_visible`: a token that is no comment ends with a visible character;
* `Schema.syntaxError_text`: a syntax error is about a text of the source that does so, or about
  none;
* `Report.format_of_covers`: how the report looks if the text is within one line.  No part of such a
  text belongs to a line ending;
* `compile_carets`: how many carets it has, and when they are as many as the text is wide.
-/

namespace ProtoDecl

open Text (afterLast isBlank restOfLine)

/-! ## Bytes and widths -/

theorem length_le_bytes (text : List Char) : text.length ≤ bytes text := by
  induction text with
  | nil => exact Nat.le_refl _
  | cons c text ih =>
    have hpos := c.utf8Size_pos
    rw [List.length_cons, bytes_cons]
    omega

/-- Of two beginnings of one text, the one with more bytes goes on where the other ends. -/
theorem append_of_bytes_le {a b x y : List Char} (h : a ++ x = b ++ y)
    (hle : bytes a ≤ bytes b) : ∃ text, b = a ++ text ∧ x = text ++ y := by
  rcases List.append_eq_append_iff.1 h with ⟨text, hb, hx⟩ | ⟨text, ha, hy⟩
  · exact ⟨text, hb, hx⟩
  · have hnil : text = [] := by
      by_contra hne
      have hpos := bytes_pos hne
      rw [ha, bytes_append] at hle
      omega
    subst hnil
    exact ⟨[], by simpa using ha.symm, by simpa using hy.symm⟩

/-- A tab takes three columns more than other characters. -/
theorem Report.columns_eq (text : List Char) :
    columns text = text.length + 3 * text.count '\t' := by
  induction text with
  | nil => rfl
  | cons c text ih =>
    rw [columns, ih, List.length_cons]
    by_cases hc : c = '\t'
    · rw [if_pos hc, hc, List.count_cons_self]
      omega
    · rw [if_neg hc, List.count_cons_of_ne hc]
      omega

/-! ## Where tokens end -/

/-- A text does not end with a blank. -/
def Closed (text : List Char) : Prop :=
  ∀ c ∈ text.getLast?, isBlank c = false

theorem closed_append {a b : List Char} (hb : b ≠ []) : Closed (a ++ b) ↔ Closed b := by
  unfold Closed
  rw [List.getLast?_append_of_ne_nil a hb]

theorem closed_singleton {c : Char} (h : isBlank c = false) : Closed [c] := by
  intro d hd
  obtain rfl : c = d := Option.some.inj hd
  exact h

namespace Piece

theorem isBlank_of_mem_digits {text : List Char} {c : Char}
    (h : c ∈ text.takeWhile Char.isDigit) : isBlank c = false :=
  isBlank_of_isDigit (List.mem_takeWhile_imp h)

theorem isBlank_of_mem_scanFraction (text : List Char) {c : Char} :
    c ∈ (scanFraction text).1 → isBlank c = false := by
  fun_cases scanFraction text with
  | case1 d rest hd =>
    intro h
    simp only [List.mem_cons] at h
    rcases h with rfl | rfl | h
    · decide
    · exact isBlank_of_isDigit hd
    · exact isBlank_of_mem_digits h
  | case2 | case3 => exact fun h => absurd h List.not_mem_nil

theorem isBlank_of_mem_scanNumber {rest : List Char} {c : Char} (h : c ∈ (scanNumber rest).1) :
    isBlank c = false := by
  rcases List.mem_append.1 h with h | h
  · exact isBlank_of_mem_digits h
  · exact isBlank_of_mem_scanFraction _ h

/-- Numbers and words hold no blank. -/
def Solid (piece : Piece) : Prop :=
  match piece.lexeme with
  | .number | .word => ∀ c ∈ piece.chars, isBlank c = false
  | _ => True

theorem next_solid (c : Char) (rest : List Char) : Solid (next c rest).1 := by
  unfold next
  split
  · trivial
  rename_i hblank
  split
  · trivial
  split
  · split <;> trivial
  split
  · cases hclosed : (scanText rest).closed <;> simp only [hclosed] <;> trivial
  -- The first character is not blank, and the others are of the class of a number or a word.
  split
  · refine List.forall_mem_cons.2 ⟨by simpa using hblank, fun d hd => ?_⟩
    exact isBlank_of_mem_scanNumber hd
  split
  · refine List.forall_mem_cons.2 ⟨by simpa using hblank, fun d hd => ?_⟩
    exact isBlank_of_isWordPart (List.mem_takeWhile_imp hd)
  split <;> trivial

/-- A token that is no comment ends with a visible character. -/
theorem last_visible {piece : Piece} (hsolid : piece.Solid) {after : List Char}
    (hlooks : piece.Looks after) {p : Place} {t : Token} (ht : piece.token? p = some t)
    (hcomment : t.kind ≠ .comment) : Closed piece.chars := by
  unfold token? at ht
  unfold Solid at hsolid
  unfold Looks at hlooks
  split at ht <;> rename_i hlexeme <;> simp only [hlexeme] at hsolid hlooks <;> cases ht
  · exact absurd rfl hcomment
  · obtain ⟨body, hchars, -⟩ := hlooks
    rw [hchars, ← List.cons_append, closed_append (List.cons_ne_nil _ _)]
    exact closed_singleton (by decide)
  · exact fun c hc => hsolid c (List.mem_of_getLast? hc)
  · exact fun c hc => hsolid c (List.mem_of_getLast? hc)
  · rename_i mark
    rw [hlooks]
    exact closed_singleton (by cases mark <;> decide)

end Piece

variable {source : String}

/-- A place in a source behind a character that is not blank. -/
def EndsVisible (source : String) (stop : Nat) : Prop :=
  ∃ before after, source.toList = before ++ after ∧ stop = bytes before ∧ Closed before

theorem token_endsVisible {t : Token} (h : t ∈ (tokenize source).tokens)
    (hend : t.kind ≠ .endOfFile) (hcomment : t.kind ≠ .comment) :
    EndsVisible source t.span.stop := by
  rcases token_cases h with ⟨item, hitem, ht⟩ | rfl
  · obtain ⟨after, ⟨before, hsource, -, hstop⟩, hne, hlooks⟩ := stands_of_mem_located hitem
    have hsolid := Piece.of_mem_split Piece.next_solid (Piece.mem_of_mem_locate hitem)
    refine ⟨before ++ item.2.chars, after, hsource, ?_, ?_⟩
    · rw [Piece.span_of_token? ht, Place.spanOf_stop, hstop]
    · exact (closed_append hne).2 (Piece.last_visible hsolid hlooks ht hcomment)
  · exact absurd rfl hend

namespace Schema

theorem endsVisible_of_mem_significant {t : Token} (h : t ∈ significant (tokenize source).tokens) :
    EndsVisible source t.span.stop := by
  obtain ⟨hend, hcomment⟩ := ne_of_mem_significant h
  refine token_endsVisible (mem_of_mem_significant h) ?_ ?_
  · simpa [Cursor.isClose] using hend
  · simpa [Cursor.isComment] using hcomment

/-- A syntax error is reported at the end of the file, or its span ends behind a visible
character. -/
theorem syntaxError_endsVisible {e : SyntaxError}
    (h : e ∈ (parse (tokenize source).tokens).errors) :
    e.span.stop = e.span.start ∨ EndsVisible source e.span.stop := by
  have hspan := (parse_justified _ e h).span
  rw [Cursor.view_ofTokens, Cursor.eof_ofTokens] at hspan
  rcases hspan with ⟨t, ht, hspan⟩ | hspan | ⟨-, t, ht, u, hu, hspan⟩
  · rw [hspan]
    exact .inr (endsVisible_of_mem_significant ht)
  · left
    rw [hspan, closeOf_tokenize, (endOfFile_span source).1, (endOfFile_span source).2]
  · right
    rw [hspan, Span.through]
    rcases Nat.le_total u.span.stop t.span.stop with hle | hle
    · rw [Nat.max_eq_right hle]
      exact endsVisible_of_mem_significant ht
    · rw [Nat.max_eq_left hle]
      exact endsVisible_of_mem_significant hu

end Schema

/-! ## The text of a diagnostic -/

/-- A span covers a text of the source, between two other parts. -/
structure Covers (source : String) (s : Span) (before text after : List Char) : Prop where
  points : Points source s before (text ++ after)
  stop : s.stop = bytes (before ++ text)

theorem Covers.length {s : Span} {before text after : List Char}
    (h : Covers source s before text after) : s.length = bytes text := by
  have hstart := h.points.start
  have hstop := h.stop
  rw [bytes_append] at hstop
  rw [Span.length, if_pos h.points.ordered]
  omega

/-- A syntax error is about a text between visible characters, or about none. -/
theorem Schema.syntaxError_text {e : SyntaxError}
    (h : e ∈ (parse (tokenize source).tokens).errors) :
    ∃ before text after, Covers source e.span before text after ∧ Visible (text ++ after) ∧
      Closed text := by
  obtain ⟨before, after, hpoints, hvisible⟩ := syntaxError_points h
  rcases syntaxError_endsVisible h with hempty | ⟨upto, rest, hsource, hstop, hclosed⟩
  · refine ⟨before, [], after, ⟨hpoints, ?_⟩, hvisible, nofun⟩
    rw [List.append_nil, hempty, hpoints.start]
  · have hle : bytes before ≤ bytes upto := by
      rw [← hpoints.start, ← hstop]
      exact hpoints.ordered
    obtain ⟨text, rfl, rfl⟩ := append_of_bytes_le (hpoints.split.symm.trans hsource) hle
    refine ⟨before, text, rest, ⟨hpoints, hstop⟩, hvisible, ?_⟩
    by_cases hne : text = []
    · rw [hne]
      exact nofun
    · exact (closed_append hne).1 hclosed

/-! ## Carets -/

namespace Report

variable {d : Diagnostic} {before text after : List Char}

/-- The report of a diagnostic that is about a text within one line. -/
theorem format_of_covers (h : Covers source d.span before text after)
    (hvisible : Visible (text ++ after)) (hclosed : Closed text) (hne : text ≠ [])
    (hline : '\n' ∉ text) (paint : Paint) (fileName : String) :
    let front := afterLast (· == '\n') before
    let rest := restOfLine after
    format paint source fileName d = heading paint fileName d ++
      quotation paint d (front ++ (text ++ rest)) (columns front)
        (min (bytes text) (text.length + rest.length)) := by
  intro front rest
  -- A carriage return at the end of the text would not be shown if a line break followed it.
  have hreturn : text.getLast? ≠ some '\r' := by
    intro hlast
    exact absurd (hclosed '\r' hlast) (by decide)
  have hquoted : quotedLine source d = some (front ++ (text ++ rest)) := by
    rw [quotedLine_eq h.points hvisible, if_neg (by simp [hne]),
      Text.restOfLine_append hline fun _ => hreturn]
  have hbytes := bytes_pos hne
  have hlength := List.length_pos_iff.2 hne
  have hformat := @format_of_some paint source fileName d _ hquoted
  rw [h.points.column, h.length, markOf_eq, List.length_append] at hformat
  rw [hformat, Nat.max_eq_left (by omega)]

/-- The carets are as many as the text is wide, just if the bytes that its characters have beyond
their first make up for the tabs. -/
theorem carets_eq_columns_iff (text rest : List Char) :
    min (bytes text) (text.length + rest.length) = columns text ↔
      min (bytes text - text.length) rest.length = 3 * text.count '\t' := by
  have hle := length_le_bytes text
  rw [columns_eq]
  omega

end Report

/-- Under the text of a syntax error, there is one caret for each byte of the text, as far as the
line goes.  They are as many as the text is wide only where the further bytes of its characters, or
what is left of the line, make up for its tabs. -/
theorem compile_carets (source : String) (options : TypeScript.Options)
    (hscan : (tokenize source).errors = []) :
    ∀ d ∈ (compile source options).errors, ∃ before text after,
      Covers source d.span before text after ∧
      (text ≠ [] → '\n' ∉ text → ∀ paint fileName,
        let front := afterLast (· == '\n') before
        let rest := restOfLine after
        ∃ carets,
          Report.format paint source fileName d = Report.heading paint fileName d ++
            Report.quotation paint d (front ++ (text ++ rest)) (Report.columns front) carets ∧
          carets = min (bytes text) (text.length + rest.length) ∧
          (carets = Report.columns text ↔
            min (bytes text - text.length) rest.length = 3 * text.count '\t')) := by
  intro d hd
  rcases mem_compile_errors hd with ⟨e, he, -⟩ | ⟨e, he, rfl⟩
  · rw [hscan] at he
    exact absurd he List.not_mem_nil
  · obtain ⟨before, text, after, hcovers, hvisible, hclosed⟩ := Schema.syntaxError_text he
    refine ⟨before, text, after, hcovers, fun hne hline paint fileName => ?_⟩
    exact ⟨_, Report.format_of_covers hcovers hvisible hclosed hne hline paint fileName, rfl,
      Report.carets_eq_columns_iff text _⟩

/-- The literal has a character of two bytes, and ends the line: three carets are drawn. -/
theorem compile_carets_clipped :
    let source := "package \"é\""
    (tokenize source).errors = [] ∧ ∃ d ∈ (compile source {}).errors, ∃ before text after,
      Covers source d.span before text after ∧ text ≠ [] ∧ '\n' ∉ text ∧ ∀ paint fileName,
        ∃ carets,
          Report.format paint source fileName d = Report.heading paint fileName d ++
            Report.quotation paint d (afterLast (· == '\n') before ++
              (text ++ restOfLine after)) (Report.columns (afterLast (· == '\n') before)) carets ∧
          carets = min (bytes text) (text.length + (restOfLine after).length) := by
  intro source
  have hscan : (tokenize source).errors = [] := by decide +kernel
  have hany : (compile source {}).errors.any (fun d => d.span = ⟨1, 9, 8, 12⟩) = true := by
    decide +kernel
  have hbreak : '\n' ∉ source.toList := by decide +kernel
  obtain ⟨d, hd, hspan⟩ := List.any_eq_true.1 hany
  have hspan : d.span = ⟨1, 9, 8, 12⟩ := of_decide_eq_true hspan
  obtain ⟨before, text, after, hcovers, hcarets⟩ := compile_carets source {} hscan d hd
  have hne : text ≠ [] := by
    rintro rfl
    have hlength := hcovers.length
    rw [hspan, bytes_nil] at hlength
    exact absurd hlength (by decide)
  have hline : '\n' ∉ text := by
    intro hmem
    rw [hcovers.points.split] at hbreak
    exact hbreak (List.mem_append_right _ (List.mem_append_left _ hmem))
  refine ⟨hscan, d, hd, before, text, after, hcovers, hne, hline, fun paint fileName => ?_⟩
  obtain ⟨carets, hformat, heq, -⟩ := hcarets hne hline paint fileName
  exact ⟨carets, hformat, heq⟩

/-- A tab in the text of a diagnostic is shown four wide, and has one caret. -/
theorem carets_fewer_than_width :
    let source := "package a; package\tb;"
    (tokenize source).errors = [] ∧ ∃ d ∈ (compile source {}).errors,
      d.span = ⟨1, 12, 11, 21⟩ ∧ source.toList = "package a; ".toList ++ "package\tb;".toList ∧
      bytes "package a; ".toList = 11 ∧ bytes "package\tb;".toList = 10 ∧
      (Report.format .plain source "input" d).toList.count '^' = 10 ∧
      Report.columns "package\tb;".toList = 13 := by
  intro source
  have hany : (compile source {}).errors.any (fun d => d.span = ⟨1, 12, 11, 21⟩ ∧
      (Report.format .plain source "input" d).toList.count '^' = 10) = true := by
    decide +kernel
  obtain ⟨d, hd, hfacts⟩ := List.any_eq_true.1 hany
  obtain ⟨hspan, hcount⟩ := of_decide_eq_true hfacts
  exact ⟨by decide +kernel, d, hd, hspan, by decide +kernel, by decide +kernel, by decide +kernel,
    hcount, by decide +kernel⟩

end ProtoDecl
