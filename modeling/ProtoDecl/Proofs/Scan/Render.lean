import ProtoDecl.Proofs.Scan.Tokens

/-!
# Scanning what was written

A list of lexemes, written one after another with blanks between them, is read back as it was.

* `Written` is a lexeme as it can be written, whatever stands around it, and carries what makes it
  one: a word that is no keyword, digits that are digits, a comment that does not end too early;
* `Written.chars` is how it is written, `Written.kind` and `Written.value` what is read of it;
* `Rendered` says that a text is such a list with blanks in between;
* `split_written` says that a lexeme is cut off whole, whatever blank follows it;
* `tokenize_rendered` says that the tokens of the text are the lexemes again.
-/

namespace ProtoDecl

open Text Piece

/-! ## Lexemes to be written -/

/-- One or more digits. -/
structure Digits where
  chars : List Char
  ne_nil : chars ≠ []
  digits : ∀ d ∈ chars, d.isDigit = true

/-- A lexeme as it can be written. -/
inductive Written where
  /-- A word that spells no keyword, in whatever letter case. -/
  | identifier (first : Char) (others : List Char) (hfirst : first.isAlpha = true ∨ first = '_')
      (hothers : ∀ c ∈ others, c.isAlphanum = true ∨ c = '_')
      (hword : ∀ k : Keyword, (first :: others).map Char.toLower ≠ k.spelling.toList)
  /-- A keyword, in whatever letter case. -/
  | keyword (k : Keyword) (word : List Char) (hword : word.map Char.toLower = k.spelling.toList)
  | number (negative : Bool) (whole : Digits) (fraction : Option Digits)
  | symbol (mark : Symbol)
  /-- A string literal with this content. -/
  | text (content : List Char)
  | blockComment (body : List Char) (hbody : ¬['*', '/'] <:+: body)
  | lineComment (body : List Char) (hbody : '\n' ∉ body)

/-- How a character is written between quotes. -/
def quoted (c : Char) : List Char :=
  if c = '\\' then ['\\', '\\'] else if c = '"' then ['\\', '"']
  else if c = '\n' then ['\\', 'n'] else [c]

namespace Written

/-- The characters by which a lexeme is written. -/
def chars : Written → List Char
  | identifier first others _ _ _ => first :: others
  | keyword _ word _ => word
  | number negative whole fraction =>
    (if negative then ['-'] else []) ++ whole.chars ++
      (fraction.map fun part => '.' :: part.chars).getD []
  | symbol mark => [mark.char]
  | text content => '"' :: (content.flatMap quoted ++ ['"'])
  | blockComment body _ => '/' :: '*' :: (body ++ ['*', '/'])
  | lineComment body _ => '/' :: '/' :: body

/-- The kind of token that a lexeme is. -/
def kind : Written → Kind
  | identifier .. => .identifier
  | keyword k .. => .keyword k
  | number .. => .number
  | symbol mark => .symbol mark
  | text _ => .text
  | blockComment .. | lineComment .. => .comment

/-- The value of its token: the content of a literal, and otherwise what is written. -/
def value : Written → String
  | text content => String.ofList content
  | x => String.ofList x.chars

/-- Whether only a line break ends the lexeme. -/
def isLine : Written → Bool
  | lineComment .. => true
  | _ => false

end Written

/-- A text in which the lexemes follow each other, with blanks between neighbours. -/
inductive Rendered : List Written → List Char → Prop
  | nil : Rendered [] []
  | single (x : Written) : Rendered [x] x.chars
  | cons (x : Written) {y : Written} {rest : List Written} {text : List Char} (b : Char)
      (gap : List Char) (hblank : ∀ c ∈ b :: gap, isBlank c = true) (hline : x.isLine → b = '\n')
      (h : Rendered (y :: rest) text) : Rendered (x :: y :: rest) (x.chars ++ b :: gap ++ text)

/-! ## Classes of characters -/

/-- No blank has a code between those of the space and the next line. -/
theorem toNat_of_isBlank {c : Char} (h : isBlank c = true) : c.toNat ≤ 32 ∨ 133 ≤ c.toNat := by
  simp only [isBlank, Bool.or_eq_true, Bool.and_eq_true, decide_eq_true_eq, beq_iff_eq] at h
  omega

theorem isDigit_iff_toNat {c : Char} : c.isDigit = true ↔ 48 ≤ c.toNat ∧ c.toNat ≤ 57 := by
  simp [Char.isDigit, UInt32.le_iff_toNat_le]

theorem isAlpha_iff_toNat {c : Char} : c.isAlpha = true ↔
    65 ≤ c.toNat ∧ c.toNat ≤ 90 ∨ 97 ≤ c.toNat ∧ c.toNat ≤ 122 := by
  have hclass : c.isAlpha =
      (decide (c.val ≥ 65 ∧ c.val ≤ 90) || decide (c.val ≥ 97) && decide (c.val ≤ 122)) := rfl
  rw [hclass]
  simp [UInt32.le_iff_toNat_le]

theorem isWordPart_iff {c : Char} :
    isWordPart c = true ↔ c.isAlpha = true ∨ c.isDigit = true ∨ c = '_' := by
  simp [isWordPart, Char.isAlphanum, or_assoc]

theorem isWordStart_iff {c : Char} : isWordStart c = true ↔ c.isAlpha = true ∨ c = '_' := by
  simp [isWordStart]

theorem isBlank_of_isWordPart {c : Char} (h : isWordPart c = true) : isBlank c = false := by
  rw [Bool.eq_false_iff]
  intro hblank
  have hcode := toNat_of_isBlank hblank
  rw [isWordPart_iff, isAlpha_iff_toNat, isDigit_iff_toNat] at h
  rcases h with h | h | rfl
  · omega
  · omega
  · exact absurd hblank (by decide)

theorem isWordPart_of_isBlank {c : Char} (h : isBlank c = true) : isWordPart c = false := by
  rw [Bool.eq_false_iff]
  intro hword
  rw [isBlank_of_isWordPart hword] at h
  cases h

theorem isBlank_of_isDigit {c : Char} (h : c.isDigit = true) : isBlank c = false :=
  isBlank_of_isWordPart (isWordPart_iff.2 (.inr (.inl h)))

theorem isDigit_of_isBlank {c : Char} (h : isBlank c = true) : c.isDigit = false := by
  rw [Bool.eq_false_iff]
  intro hdigit
  rw [isBlank_of_isDigit hdigit] at h
  cases h

theorem isWordPart_of_isWordStart {c : Char} (h : isWordStart c = true) : isWordPart c = true := by
  rw [isWordStart_iff] at h
  rw [isWordPart_iff]
  tauto

theorem isDigit_of_isWordStart {c : Char} (h : isWordStart c = true) : c.isDigit = false := by
  rw [Bool.eq_false_iff]
  intro hdigit
  rw [isDigit_iff_toNat] at hdigit
  rw [isWordStart_iff, isAlpha_iff_toNat] at h
  rcases h with h | rfl
  · omega
  · exact absurd hdigit (by decide)

/-- The text is over, or goes on with a character outside of the class. -/
def Stops (p : Char → Bool) (after : List Char) : Prop :=
  ∀ c ∈ after.head?, p c = false

theorem takeWhile_append_stops {p : Char → Bool} {cs after : List Char} (hcs : ∀ c ∈ cs, p c = true)
    (hafter : Stops p after) : (cs ++ after).takeWhile p = cs := by
  rw [List.takeWhile_append_of_pos hcs]
  cases after with
  | nil => simp
  | cons c after => simp [hafter c rfl]

theorem dropWhile_append_stops {p : Char → Bool} {cs after : List Char} (hcs : ∀ c ∈ cs, p c = true)
    (hafter : Stops p after) : (cs ++ after).dropWhile p = after := by
  rw [List.dropWhile_append_of_pos hcs]
  cases after with
  | nil => rfl
  | cons c after => simp [hafter c rfl]

/-! ## Cutting off one lexeme -/

/-- What may follow a lexeme: nothing, or a blank, which is a line break if it has to be. -/
def Written.Before (x : Written) (after : List Char) : Prop :=
  ∀ b ∈ after.head?, isBlank b = true ∧ (x.isLine → b = '\n')

theorem Written.Before.stops {x : Written} {after : List Char} (h : x.Before after)
    {p : Char → Bool} (hp : ∀ b, isBlank b = true → p b = false) : Stops p after :=
  fun b hb => hp b (h b hb).1

section
variable {after : List Char}

theorem next_word {c : Char} {cs : List Char} (hc : isWordStart c = true)
    (hcs : ∀ d ∈ cs, isWordPart d = true) (hafter : Stops isWordPart after) :
    next c (cs ++ after) = (⟨.word, c :: cs⟩, after) := by
  have hblank := isBlank_of_isWordPart (isWordPart_of_isWordStart hc)
  have hslash : c ≠ '/' := by
    rintro rfl
    exact absurd hc (by decide)
  have hquote : c ≠ '"' := by
    rintro rfl
    exact absurd hc (by decide)
  have hminus : c ≠ '-' := by
    rintro rfl
    exact absurd hc (by decide)
  simp [next, startsNumber, hblank, hslash, hquote, hminus, hc, isDigit_of_isWordStart hc,
    takeWhile_append_stops hcs hafter, dropWhile_append_stops hcs hafter]

/-- A word in whatever letter case begins and goes on as a word does, if its small letters spell a
keyword. -/
theorem isWordStart_of_toLower {k : Keyword} {word : List Char}
    (h : word.map Char.toLower = k.spelling.toList) :
    word ≠ [] ∧ ∀ c ∈ word, isWordStart c = true := by
  have hspelling : k.spelling.toList ≠ [] ∧ k.spelling.toList.all Char.isLower = true := by
    cases k <;> decide
  rw [← h, List.all_eq_true] at hspelling
  refine ⟨fun hnil => hspelling.1 (by rw [hnil]; rfl), fun c hc => ?_⟩
  have hlower := hspelling.2 c.toLower (List.mem_map_of_mem hc)
  have hletter : (c.isUpper || c.isLower) = true := by
    unfold Char.toLower at hlower
    split at hlower
    · rename_i hupper
      rw [show c.isUpper = true from decide_eq_true hupper, Bool.true_or]
    · rw [hlower, Bool.or_true]
  exact isWordStart_iff.2 (.inl hletter)

/-! ### Numbers -/

theorem scanFraction_none (hafter : Stops (· == '.') after) : scanFraction after = ([], after) := by
  unfold scanFraction
  split
  · exact absurd (hafter '.' rfl) (by decide)
  · rfl

theorem scanFraction_some (part : Digits) (hafter : Stops Char.isDigit after) :
    scanFraction ('.' :: (part.chars ++ after)) = ('.' :: part.chars, after) := by
  obtain ⟨_ | ⟨d, ds⟩, hne, hdigits⟩ := part
  · exact absurd rfl hne
  · have hds : ∀ c ∈ ds, c.isDigit = true := fun c hc => hdigits c (List.mem_cons_of_mem _ hc)
    simp [scanFraction, hdigits d List.mem_cons_self, takeWhile_append_stops hds hafter,
      dropWhile_append_stops hds hafter]

/-- The digits of a number, and then what its fraction may be, are read up to a blank. -/
theorem scanNumber_written {digits : List Char} (hdigits : ∀ d ∈ digits, d.isDigit = true)
    (fraction : Option Digits) (hafter : ∀ b ∈ after.head?, isBlank b = true) :
    scanNumber (digits ++ ((fraction.map fun part => '.' :: part.chars).getD [] ++ after)) =
      (digits ++ (fraction.map fun part => '.' :: part.chars).getD [], after) := by
  have hstop : Stops Char.isDigit after := fun b hb => isDigit_of_isBlank (hafter b hb)
  cases fraction with
  | none =>
    have hdot : Stops (· == '.') after := by
      intro b hb
      simp only [beq_eq_false_iff_ne]
      rintro rfl
      exact absurd (hafter '.' hb) (by decide)
    simp [scanNumber, takeWhile_append_stops hdigits hstop, dropWhile_append_stops hdigits hstop,
      scanFraction_none hdot]
  | some part =>
    have hpoint : Stops Char.isDigit ('.' :: (part.chars ++ after)) := by
      intro b hb
      cases hb
      decide
    simp [scanNumber, takeWhile_append_stops hdigits hpoint, dropWhile_append_stops hdigits hpoint,
      scanFraction_some part hstop]

theorem next_number {c : Char} {rest : List Char} (h : startsNumber c rest = true) :
    next c rest = (⟨.number, c :: (scanNumber rest).1⟩, (scanNumber rest).2) := by
  have hc : c.isDigit = true ∨ c = '-' := by
    simp only [startsNumber, Bool.or_eq_true, Bool.and_eq_true, beq_iff_eq] at h
    tauto
  have hblank : isBlank c = false := by
    rcases hc with hc | rfl
    · exact isBlank_of_isDigit hc
    · decide
  have hslash : c ≠ '/' := by
    rintro rfl
    exact absurd hc (by decide)
  have hquote : c ≠ '"' := by
    rintro rfl
    exact absurd hc (by decide)
  simp [next, hblank, hslash, hquote, h]

/-! ### Literals and comments -/

/-- A literal is decoded to what was written, and ends at its own closing quote. -/
theorem scanText_quoted (content : List Char) :
    scanText (content.flatMap quoted ++ '"' :: after) =
      ⟨content, content.flatMap quoted ++ ['"'], after, true⟩ := by
  induction content with
  | nil => simp [scanText]
  | cons c content ih =>
    by_cases hslash : c = '\\'
    · simp [hslash, quoted, scanText, ih, unescape]
    by_cases hquote : c = '"'
    · simp [hquote, quoted, scanText, ih, unescape]
    by_cases hbreak : c = '\n'
    · simp [hbreak, quoted, scanText, ih, unescape]
    · simp [quoted, scanText, ih, hslash, hquote, hbreak]

/-- A comment ends at its own end, if it does not end before. -/
theorem splitComment_written {body : List Char} (h : ¬['*', '/'] <:+: body) :
    splitComment (body ++ '*' :: '/' :: after) = some (body ++ ['*', '/'], after) := by
  induction body with
  | nil => simp [splitComment]
  | cons c body ih =>
    rw [List.infix_cons_iff, not_or] at h
    have hstart : ∀ rest, ¬(c = '*' ∧ body ++ '*' :: '/' :: after = '/' :: rest) := by
      rintro rest ⟨rfl, hbody⟩
      cases body with
      | nil => cases hbody
      | cons d body =>
        obtain ⟨rfl, -⟩ := List.cons.inj hbody
        exact h.1 ⟨body, rfl⟩
    rw [List.cons_append, splitComment, ih h.2]
    · rfl
    · intro rest hc hrest
      exact hstart rest ⟨hc, hrest⟩

theorem next_symbol (mark : Symbol) (hafter : Stops Char.isDigit after) :
    next mark.char after = (⟨.symbol mark, [mark.char]⟩, after) := by
  have hnumber : startsNumber mark.char after = false := by
    have hhead : after.head?.any Char.isDigit = false := by
      cases after with
      | nil => rfl
      | cons c after => simpa using hafter c rfl
    have hdigit : mark.char.isDigit = false := by
      cases mark <;> decide
    simp [startsNumber, hhead, hdigit]
  have hplain : isBlank mark.char = false ∧ mark.char ≠ '/' ∧ mark.char ≠ '"' ∧
      isWordStart mark.char = false := by
    cases mark <;> decide
  simp [next, hplain, hnumber]

/-! ### All lexemes -/

theorem split_of_next {c : Char} {rest : List Char} {piece : Piece}
    (h : next c rest = (piece, after)) : split (c :: rest) = piece :: split after := by
  rw [split, h]

/-- What the piece is that a lexeme becomes. -/
def Written.lexeme : Written → Lexeme
  | identifier .. | keyword .. => .word
  | number .. => .number
  | symbol mark => .symbol mark
  | text content => .text content
  | blockComment .. | lineComment .. => .comment

/-- A lexeme is cut off whole, and nothing else with it. -/
theorem split_written (x : Written) (h : x.Before after) :
    split (x.chars ++ after) = ⟨x.lexeme, x.chars⟩ :: split after := by
  have hdigit : Stops Char.isDigit after := h.stops fun _ => isDigit_of_isBlank
  have hword : Stops isWordPart after := h.stops fun _ => isWordPart_of_isBlank
  cases x with
  | identifier first others hfirst hothers hother =>
    apply split_of_next
    apply next_word _ _ hword
    · exact isWordStart_iff.2 hfirst
    · simpa [isWordPart] using hothers
  | keyword k word hspelled =>
    obtain ⟨hne, hstart⟩ := isWordStart_of_toLower hspelled
    cases word with
    | nil => exact absurd rfl hne
    | cons c cs =>
      apply split_of_next
      apply next_word (hstart c List.mem_cons_self) _ hword
      intro d hd
      exact isWordPart_of_isWordStart (hstart d (List.mem_cons_of_mem _ hd))
  | number negative whole fraction =>
    have hblank : ∀ b ∈ after.head?, isBlank b = true := fun b hb => (h b hb).1
    obtain ⟨_ | ⟨d, ds⟩, hne, hdigits⟩ := whole
    · exact absurd rfl hne
    cases negative with
    | true =>
      have hstart : startsNumber '-' (d :: (ds ++ ((fraction.map fun part =>
          '.' :: part.chars).getD [] ++ after))) = true := by
        simp [startsNumber, hdigits d List.mem_cons_self]
      have hscan := scanNumber_written hdigits fraction hblank
      have hnext := next_number hstart
      rw [List.cons_append] at hscan
      rw [hscan] at hnext
      simpa [Written.chars, Written.lexeme] using split_of_next hnext
    | false =>
      have hds : ∀ c ∈ ds, c.isDigit = true := fun c hc => hdigits c (List.mem_cons_of_mem _ hc)
      have hstart : startsNumber d (ds ++ ((fraction.map fun part =>
          '.' :: part.chars).getD [] ++ after)) = true := by
        simp [startsNumber, hdigits d List.mem_cons_self]
      have hnext := next_number hstart
      rw [scanNumber_written hds fraction hblank] at hnext
      simpa [Written.chars, Written.lexeme] using split_of_next hnext
  | symbol mark => exact split_of_next (next_symbol mark hdigit)
  | text content =>
    have hnext : next '"' (content.flatMap quoted ++ '"' :: after) =
        (⟨.text content, '"' :: (content.flatMap quoted ++ ['"'])⟩, after) := by
      simp [next, scanText_quoted, show isBlank '"' = false by decide]
    simpa [Written.chars, Written.lexeme] using split_of_next hnext
  | blockComment body hbody =>
    have hnext : next '/' ('*' :: (body ++ '*' :: '/' :: after)) =
        (⟨.comment, '/' :: '*' :: (body ++ ['*', '/'])⟩, after) := by
      simp [next, splitComment_written hbody, show isBlank '/' = false by decide]
    simpa [Written.chars, Written.lexeme] using split_of_next hnext
  | lineComment body hbody =>
    have hline : ∀ c ∈ '/' :: body, (c != '\n') = true := by
      intro c hc
      rw [bne_iff_ne]
      rintro rfl
      exact hbody (by simpa using hc)
    have hbreak : Stops (· != '\n') after := by
      intro b hb
      simpa using (h b hb).2 rfl
    have hnext : next '/' ('/' :: body ++ after) = (⟨.comment, '/' :: '/' :: body⟩, after) := by
      have htake := takeWhile_append_stops hline hbreak
      have hdrop := dropWhile_append_stops hline hbreak
      rw [List.cons_append] at htake hdrop
      simp [next, htake, hdrop, show isBlank '/' = false by decide]
    exact split_of_next hnext

end

/-! ## Whole texts -/

theorem split_blank {gap after : List Char} (h : ∀ c ∈ gap, isBlank c = true) :
    split (gap ++ after) = gap.map (fun c => ⟨.blank, [c]⟩) ++ split after := by
  induction gap with
  | nil => rfl
  | cons c gap ih =>
    have hnext : next c (gap ++ after) = (⟨.blank, [c]⟩, gap ++ after) := by
      simp [next, h c List.mem_cons_self]
    rw [List.cons_append, split_of_next hnext, ih fun d hd => h d (List.mem_cons_of_mem _ hd)]
    rfl

theorem ofWord?_of_toLower {k : Keyword} {word : List Char}
    (h : word.map Char.toLower = k.spelling.toList) : Keyword.ofWord? word = some k := by
  rw [Keyword.ofWord?, h]
  cases k <;> decide

theorem ofWord?_eq_none {word : List Char}
    (h : ∀ k : Keyword, word.map Char.toLower ≠ k.spelling.toList) :
    Keyword.ofWord? word = none := by
  rw [Keyword.ofWord?, List.find?_eq_none]
  intro k _ hk
  exact h k (beq_iff_eq.1 hk).symm

/-- The piece of a lexeme is the token that the lexeme is, wherever it stands. -/
theorem token?_written (x : Written) (p : Place) :
    Piece.token? p ⟨x.lexeme, x.chars⟩ = some ⟨x.kind, x.value, p.spanOf x.chars⟩ := by
  cases x with
  | identifier first others hfirst hothers hword =>
    simp [token?, Written.lexeme, Written.kind, Written.value, Written.chars, kindOfWord,
      ofWord?_eq_none hword]
  | keyword k word hword =>
    simp [token?, Written.lexeme, Written.kind, Written.value, Written.chars, kindOfWord,
      ofWord?_of_toLower hword]
  | _ => rfl

theorem error?_written (x : Written) (p : Place) : Piece.error? p ⟨x.lexeme, x.chars⟩ = none :=
  error?_of_token? (token?_written x p)

/-- The tokens and faults of located pieces are the lexemes, and none. -/
def Shows (items : List (Place × Piece)) (xs : List Written) : Prop :=
  (items.filterMap fun item => item.2.token? item.1).map (fun t => (t.kind, t.value)) =
      xs.map (fun x => (x.kind, x.value)) ∧
    (items.filterMap fun item => item.2.error? item.1) = []

theorem shows_blank {p : Place} {gap : List Char} {pieces : List Piece} {xs : List Written}
    (h : ∀ p, Shows (locate p pieces) xs) :
    Shows (locate p (gap.map (fun c => ⟨.blank, [c]⟩) ++ pieces)) xs := by
  induction gap generalizing p with
  | nil => exact h p
  | cons c gap ih => exact ih

theorem shows_written (x : Written) {p : Place} {pieces : List Piece} {xs : List Written}
    (h : Shows (locate (p.advance x.chars) pieces) xs) :
    Shows (locate p (⟨x.lexeme, x.chars⟩ :: pieces)) (x :: xs) := by
  refine ⟨?_, ?_⟩
  · simp only [locate, List.filterMap_cons, token?_written, List.map_cons, h.1]
  · simp only [locate, List.filterMap_cons, error?_written, h.2]

theorem shows_rendered {xs : List Written} {text : List Char} (h : Rendered xs text) (p : Place) :
    Shows (locate p (split text)) xs := by
  induction h generalizing p with
  | nil => exact ⟨by simp [split, locate], by simp [split, locate]⟩
  | single x =>
    have hsplit : split (x.chars ++ []) = ⟨x.lexeme, x.chars⟩ :: split [] :=
      split_written x (by simp [Written.Before])
    rw [List.append_nil] at hsplit
    rw [hsplit]
    exact shows_written x ⟨by simp [split, locate], by simp [split, locate]⟩
  | @cons x y rest text b gap hblank hline hrest ih =>
    have hbefore : x.Before (b :: gap ++ text) := by
      intro c hc
      cases hc
      exact ⟨hblank b List.mem_cons_self, hline⟩
    rw [List.append_assoc, split_written x hbefore, split_blank hblank]
    exact shows_written x (shows_blank ih)

/-- Scanning undoes writing: what is written lexeme by lexeme, with blanks in between, has no
faults, and the lexemes for its tokens. -/
theorem tokenize_rendered {xs : List Written} {source : String}
    (h : Rendered xs source.toList) :
    (tokenize source).errors = [] ∧
      (tokenize source).tokens.map (fun t => (t.kind, t.value)) =
        xs.map (fun x => (x.kind, x.value)) ++ [(.endOfFile, "")] := by
  obtain ⟨htokens, herrors⟩ := shows_rendered h Place.origin
  refine ⟨herrors, ?_⟩
  rw [tokenize_tokens, List.map_append]
  exact congrArg (· ++ [(.endOfFile, "")]) htokens

/-- A keyword in mixed case, a number, a comment, a literal with escapes, and a minus sign that is
no part of the word behind it. -/
theorem tokenize_rendered_mixed :
    let word : Written := .keyword .message "mEssage".toList (by decide)
    let number : Written := .number true ⟨['1'], by decide, List.all_eq_true.1 (by decide)⟩
      (some ⟨['5', '0'], by decide, List.all_eq_true.1 (by decide)⟩)
    let note : Written := .lineComment " to".toList (by decide)
    let content : Written := .text "a\"\\\n".toList
    let name : Written := .identifier 'x' ['1'] (by decide)
      (List.forall_mem_singleton.2 (by decide)) fun k => by cases k <;> decide
    let source := "mEssage -1.50\u2003// to\n\t\"a\\\"\\\\\\n\" - x1"
    Rendered [word, number, note, content, .symbol .minus, name] source.toList ∧
      (tokenize source).errors = [] ∧
      (tokenize source).tokens.map (fun t => (t.kind, t.value)) =
        [(.keyword .message, "mEssage"), (.number, "-1.50"), (.comment, "// to"),
          (.text, "a\"\\\n"), (.symbol .minus, "-"), (.identifier, "x1"), (.endOfFile, "")] := by
  intro word number note content name source
  have htext : source.toList = word.chars ++ [' '] ++ (number.chars ++ ['\u2003'] ++
      (note.chars ++ ['\n', '\t'] ++ (content.chars ++ [' '] ++ (['-', ' '] ++ name.chars)))) := by
    decide
  have hblank (b : Char) (gap : List Char) (h : (b :: gap).all isBlank = true) :
      ∀ c ∈ b :: gap, isBlank c = true :=
    List.all_eq_true.1 h
  have hrendered := Rendered.cons word ' ' [] (hblank _ _ (by decide)) (by decide) <|
    .cons number '\u2003' [] (hblank _ _ (by decide)) (by decide) <|
    .cons note '\n' ['\t'] (hblank _ _ (by decide)) (by decide) <|
    .cons content ' ' [] (hblank _ _ (by decide)) (by decide) <|
    .cons (.symbol .minus) ' ' [] (hblank _ _ (by decide)) (by decide) <| .single name
  have hsource : Rendered _ source.toList := htext ▸ hrendered
  exact ⟨hsource, tokenize_rendered hsource⟩

end ProtoDecl
