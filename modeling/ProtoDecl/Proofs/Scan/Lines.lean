import ProtoDecl.Proofs.Scan.Places

/-!
# Lines are scanned by themselves

Two texts with a line break between them are scanned as each by itself: no piece of the first
reaches over the line break, and nothing of the first is remembered behind it.  The exception is a
first text with a literal or a comment that is never closed, because such a piece may go on in the
second.

* `scanText_append`, `splitComment_append`: a literal or a comment that ends does not depend on what
  follows its end;
* `next_append_break`: neither does any other piece, if a line break follows the text;
* `split_append_break`: the pieces of the two texts, with a blank between them;
* `tokenize_append_break`: the tokens and the errors.
-/

namespace ProtoDecl

namespace Piece

variable {text after : List Char}

/-! ## Pieces with an end of their own -/

theorem scanText_append (h : (scanText text).closed = true) (after : List Char) :
    scanText (text ++ after) = { scanText text with rest := (scanText text).rest ++ after } := by
  fun_induction scanText text with
  | case1 => simp at h
  | case2 c rest scan ih =>
    rw [List.cons_append, List.cons_append, scanText, ih h]
  | case3 rest => simp [scanText]
  | case4 rest => simp at h
  | case5 rest => simp at h
  | case6 c rest _ hquote hbreak hslash scan ih =>
    rw [List.cons_append, scanText, ih h]
    · simp [hquote, hbreak, hslash, scan]
    · exact fun _ _ hc => absurd hc hslash

theorem splitComment_append {body rest : List Char} (h : splitComment text = some (body, rest))
    (after : List Char) : splitComment (text ++ after) = some (body, rest ++ after) := by
  fun_induction splitComment text generalizing body with
  | case1 rest =>
    obtain ⟨rfl, rfl⟩ := Prod.mk.inj (Option.some.inj h)
    rfl
  | case2 c text hstart ih =>
    obtain ⟨⟨body', rest'⟩, hsplit, hpair⟩ := Option.map_eq_some_iff.1 h
    obtain ⟨rfl, rfl⟩ := Prod.mk.inj hpair
    have hstart' : ∀ tail, c = '*' → text ++ after = '/' :: tail → False := by
      intro tail hc htail
      cases text with
      | nil => simp [splitComment] at hsplit
      | cons d text =>
        obtain ⟨rfl, -⟩ := List.cons.inj htail
        exact hstart text hc rfl
    rw [List.cons_append, splitComment, ih hsplit]
    · rfl
    · exact hstart'
  | case3 => simp at h

/-! ## Pieces that a line break ends -/

/-- A run of characters of a class that has no line break ends before one. -/
theorem takeWhile_append_break {p : Char → Bool} (hp : p '\n' = false) (text after : List Char) :
    (text ++ '\n' :: after).takeWhile p = text.takeWhile p := by
  induction text with
  | nil => simp [hp]
  | cons c text ih =>
    by_cases hc : p c = true
    · simp [hc, ih]
    · simp [hc]

theorem dropWhile_append_break {p : Char → Bool} (hp : p '\n' = false) (text after : List Char) :
    (text ++ '\n' :: after).dropWhile p = text.dropWhile p ++ '\n' :: after := by
  induction text with
  | nil => simp [hp]
  | cons c text ih =>
    by_cases hc : p c = true
    · simp [hc, ih]
    · simp [hc]

/-- A test of the next character that a line break fails comes out the same at the end of a text and
before a line break. -/
theorem any_head?_append_break {p : Char → Bool} (hp : p '\n' = false) (text after : List Char) :
    (text ++ '\n' :: after).head?.any p = text.head?.any p := by
  cases text with
  | nil => simp [hp]
  | cons c text => rfl

theorem head?_append_break {c : Char} (hc : c ≠ '\n') (text after : List Char) :
    ((text ++ '\n' :: after).head? == some c) = (text.head? == some c) := by
  cases text with
  | nil => simpa using hc.symm
  | cons d text => rfl

theorem scanFraction_append_break (text after : List Char) :
    scanFraction (text ++ '\n' :: after) =
      ((scanFraction text).1, (scanFraction text).2 ++ '\n' :: after) := by
  have hdigit : ('\n' : Char).isDigit = false := by decide
  match text with
  | [] => rfl
  | [c] =>
    by_cases hc : c = '.'
    · simp [hc, scanFraction, hdigit]
    · simp [scanFraction, hc]
  | c :: d :: rest =>
    by_cases hc : c = '.'
    · by_cases hd : d.isDigit = true
      · simp [hc, scanFraction, hd, takeWhile_append_break hdigit,
          dropWhile_append_break hdigit]
      · simp [hc, scanFraction, hd]
    · simp [scanFraction, hc]

theorem scanNumber_append_break (text after : List Char) :
    scanNumber (text ++ '\n' :: after) =
      ((scanNumber text).1, (scanNumber text).2 ++ '\n' :: after) := by
  have hdigit : ('\n' : Char).isDigit = false := by decide
  unfold scanNumber
  rw [takeWhile_append_break hdigit, dropWhile_append_break hdigit, scanFraction_append_break]

theorem startsNumber_append_break (c : Char) (text after : List Char) :
    startsNumber c (text ++ '\n' :: after) = startsNumber c text := by
  unfold startsNumber
  rw [any_head?_append_break (by decide)]

/-- A piece that is closed is the same with a line break behind the text as without. -/
theorem next_append_break (c : Char) (text after : List Char)
    (hopen : (next c text).1.lexeme ≠ .openText ∧ (next c text).1.lexeme ≠ .openComment) :
    next c (text ++ '\n' :: after) = ((next c text).1, (next c text).2 ++ '\n' :: after) := by
  unfold next at hopen ⊢
  rw [head?_append_break (by decide), head?_append_break (by decide), startsNumber_append_break,
    scanNumber_append_break]
  split
  · rfl
  split
  · rw [takeWhile_append_break (by decide), dropWhile_append_break (by decide)]
  split
  · rename_i hblank hline hblock
    simp only [hblank, hline, hblock, if_true] at hopen
    obtain ⟨-, hstar⟩ : c = '/' ∧ text.head? = some '*' := by simpa using hblock
    obtain ⟨body, rfl⟩ := List.head?_eq_some_iff.1 hstar
    rw [List.cons_append, List.tail_cons, List.tail_cons] at *
    cases hsplit : splitComment body with
    | none => simp [hsplit] at hopen
    | some split =>
      rw [splitComment_append hsplit]
      simp
  split
  · rename_i hblank hline hblock hquote
    simp only [hblank, hline, hblock, hquote, if_true] at hopen
    have hclosed : (scanText text).closed = true := by
      by_contra hclosed
      simp [hclosed] at hopen
    rw [scanText_append hclosed]
  split
  · rfl
  split
  · rw [takeWhile_append_break (by decide), dropWhile_append_break (by decide)]
  · split <;> rfl

/-- The pieces of two texts with a line break between them, if the first leaves nothing open. -/
theorem split_append_break (text after : List Char)
    (hopen : ∀ piece ∈ split text, piece.lexeme ≠ .openText ∧ piece.lexeme ≠ .openComment) :
    split (text ++ '\n' :: after) = split text ++ ⟨.blank, ['\n']⟩ :: split after := by
  fun_induction split text with
  | case1 =>
    have hblank : next '\n' after = (⟨.blank, ['\n']⟩, after) := rfl
    rw [List.nil_append, List.nil_append, split, hblank]
  | case2 c rest ih =>
    have hnext := next_append_break c rest after (hopen _ List.mem_cons_self)
    rw [List.cons_append, split, hnext,
      ih fun piece hpiece => hopen piece (List.mem_cons_of_mem _ hpiece), List.cons_append]

end Piece

/-! ## Tokens and errors -/

/-- The fault of a piece that is left open says so. -/
theorem LexicalFault.unterminated_message {f : LexicalFault}
    (h : ¬ "Unterminated".toList <+: f.message.toList) : f ≠ .openText ∧ f ≠ .openComment := by
  constructor
  · rintro rfl
    exact h (by decide)
  · rintro rfl
    exact h (by decide)

/-- Each piece of a text is located somewhere. -/
theorem Piece.locate_of_mem {piece : Piece} {pieces : List Piece} (h : piece ∈ pieces)
    (p : Place) : ∃ q, (q, piece) ∈ locate p pieces := by
  induction pieces generalizing p with
  | nil => cases h
  | cons first pieces ih =>
    rw [locate]
    cases List.mem_cons.1 h with
    | inl hfirst => exact ⟨p, hfirst ▸ List.mem_cons_self⟩
    | inr hrest =>
      obtain ⟨q, hq⟩ := ih hrest (p.advance first.chars)
      exact ⟨q, List.mem_cons_of_mem _ hq⟩

/-- A text without an error for an open piece has no open piece. -/
theorem closed_of_errors {source : String}
    (h : ∀ e ∈ (tokenize source).errors, ¬ "Unterminated".toList <+: e.message.toList) :
    ∀ piece ∈ Piece.split source.toList,
      piece.lexeme ≠ .openText ∧ piece.lexeme ≠ .openComment := by
  intro piece hpiece
  obtain ⟨p, hp⟩ := Piece.locate_of_mem hpiece .origin
  have herror : ∀ e, piece.error? p = some e → e.fault ≠ .openText ∧ e.fault ≠ .openComment := by
    intro e he
    exact LexicalFault.unterminated_message (h e (List.mem_filterMap.2 ⟨_, hp, he⟩))
  constructor
  · intro hlexeme
    have he : piece.error? p = some ⟨.openText, p⟩ := by
      unfold Piece.error?
      rw [hlexeme]
    exact (herror _ he).1 rfl
  · intro hlexeme
    have he : piece.error? p = some ⟨.openComment, p⟩ := by
      unfold Piece.error?
      rw [hlexeme]
    exact (herror _ he).2 rfl

/-- What is located in two texts with a line break between them: what is located in the first, the
line break, and what is located in the second, moved behind them. -/
theorem located_append_break (first second : String)
    (hopen : ∀ piece ∈ Piece.split first.toList,
      piece.lexeme ≠ .openText ∧ piece.lexeme ≠ .openComment) :
    located (first ++ "\n" ++ second) =
      located first ++ (Place.origin.advance first.toList, ⟨.blank, ['\n']⟩) ::
        (located second).map fun item =>
          (item.1.moved (1 + first.toList.count '\n') (first.utf8ByteSize + 1), item.2) := by
  have htext : (first ++ "\n" ++ second).toList = first.toList ++ '\n' :: second.toList := by
    simp
  unfold located
  rw [htext, Piece.split_append_break _ _ hopen, Piece.locate_append, Piece.flatMap_chars_split,
    Piece.locate]
  change _ ++ (_, _) :: Piece.locate ((Place.origin.advance first.toList).step '\n') _ = _
  rw [Place.step_origin, Piece.locate_moved, bytes_toList]

/-- The end of two texts with a line break between them is that of the second, moved. -/
theorem endOfFile_append_break (first second : String) :
    Token.endOfFile (Place.origin.advance (first ++ "\n" ++ second).toList) =
      (Token.endOfFile (Place.origin.advance second.toList)).moved
        (1 + first.toList.count '\n') (first.utf8ByteSize + 1) := by
  have htext : (first ++ "\n" ++ second).toList = first.toList ++ '\n' :: second.toList := by
    simp
  rw [htext, Place.advance_append]
  change Token.endOfFile (((Place.origin.advance first.toList).step '\n').advance _) = _
  rw [Place.step_origin, Place.advance_moved, Token.endOfFile_moved, bytes_toList]

/-- Lines are scanned by themselves.  If nothing in a text is left open, then the tokens of the
text, a line break and a second text are the tokens of the first without the one for its end,
followed by those of the second moved behind it, and likewise for the errors. -/
theorem tokenize_append_break (first second : String)
    (h : ∀ e ∈ (tokenize first).errors, ¬ "Unterminated".toList <+: e.message.toList) :
    let lines := 1 + first.toList.count '\n'
    let bytes := first.utf8ByteSize + 1
    (tokenize (first ++ "\n" ++ second)).tokens =
        (tokenize first).tokens.dropLast ++
          (tokenize second).tokens.map (·.moved lines bytes) ∧
      (tokenize (first ++ "\n" ++ second)).errors =
        (tokenize first).errors ++ (tokenize second).errors.map (·.moved lines bytes) := by
  intro lines bytes
  have hlocated := located_append_break first second (closed_of_errors h)
  constructor
  · rw [tokenize_tokens, tokenize_tokens, tokenize_tokens, hlocated, endOfFile_append_break,
      List.dropLast_concat, List.filterMap_append, List.filterMap_cons_none rfl,
      Piece.tokens_moved, List.map_append, List.append_assoc]
    rfl
  · rw [tokenize_errors, tokenize_errors, tokenize_errors, hlocated, List.filterMap_append,
      List.filterMap_cons_none rfl, Piece.errors_moved]

/-- The first text has a character that is no token and ends with a comment; the second closes
nothing of it. -/
theorem tokenize_append_break_comment :
    let first := "a ? // \"b"
    let second := "c\" d\n=\""
    (∀ e ∈ (tokenize first).errors, ¬ "Unterminated".toList <+: e.message.toList) ∧
      (tokenize (first ++ "\n" ++ second)).tokens =
        (tokenize first).tokens.dropLast ++ (tokenize second).tokens.map (·.moved 1 10) ∧
      (tokenize (first ++ "\n" ++ second)).errors =
        (tokenize first).errors ++ (tokenize second).errors.map (·.moved 1 10) := by
  intro first second
  have hclosed : ∀ e ∈ (tokenize first).errors, ¬ "Unterminated".toList <+: e.message.toList := by
    decide +kernel
  have hlines : 1 + first.toList.count '\n' = 1 := by decide
  have hbytes : first.utf8ByteSize + 1 = 10 := by decide
  have hscan := tokenize_append_break first second hclosed
  simp only [hlines, hbytes] at hscan
  exact ⟨hclosed, hscan⟩

end ProtoDecl
