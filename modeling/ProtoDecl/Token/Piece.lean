import ProtoDecl.Text.Basic
import ProtoDecl.Token.Basic

/-!
# Cutting source text into pieces

Schema text is cut into consecutive pieces.  Each piece is a blank, a token or a fault, and the
pieces side by side are the text again (`flatMap_chars_split`), so nothing is lost.  Where a piece
ends depends only on the text from its first character on; spans are computed afterwards from the
lengths of the pieces.

* `Lexeme` says what a piece is, `Piece` adds its characters;
* the scanners `splitComment`, `scanText`, `scanNumber` find where the longer pieces end;
* `Piece.next` cuts one piece off a text that has a first character;
* `Piece.split` cuts a whole text.
-/

namespace ProtoDecl

/-- What a piece of source text is.  The last three are faults. -/
inductive Lexeme where
  | blank
  | comment
  /-- A string literal, with its decoded content. -/
  | text (value : List Char)
  | number
  /-- A keyword or an identifier. -/
  | word
  | symbol (mark : Symbol)
  /-- A character that starts nothing. -/
  | unknown (c : Char)
  /-- A string literal without its closing quote. -/
  | openText
  /-- A block comment without its end. -/
  | openComment
deriving DecidableEq, Repr

/-- Consecutive characters of a source text, with what they are. -/
structure Piece where
  lexeme : Lexeme
  chars : List Char
deriving DecidableEq, Repr

namespace Piece

/-! ## Scanners -/

/-- Whether a character may begin a word. -/
def isWordStart (c : Char) : Bool :=
  c.isAlpha || c == '_'

/-- Whether a character may continue a word. -/
def isWordPart (c : Char) : Bool :=
  c.isAlphanum || c == '_'

/-- Divides a text just after its first `*/`, if there is one. -/
def splitComment : List Char → Option (List Char × List Char)
  | '*' :: '/' :: rest => some (['*', '/'], rest)
  | c :: rest => (splitComment rest).map fun split => (c :: split.1, split.2)
  | [] => none

/-- The character that a backslash followed by `c` stands for. -/
def unescape (c : Char) : Char :=
  if c = 'n' then '\n' else if c = 't' then '\t' else if c = 'r' then '\r' else c

/-- What was found behind an opening quote. -/
structure TextScan where
  /-- The decoded content. -/
  value : List Char
  /-- The characters up to the end of the literal, the closing quote included. -/
  taken : List Char
  /-- What follows. -/
  rest : List Char
  /-- Whether there was a closing quote. -/
  closed : Bool

/-- Reads the content of a string literal up to its closing quote.  A bare line break or the end
of the text leaves the literal open; the line break is not part of it. -/
def scanText : List Char → TextScan
  | [] => ⟨[], [], [], false⟩
  | '\\' :: c :: rest =>
    let scan := scanText rest
    { scan with value := unescape c :: scan.value, taken := '\\' :: c :: scan.taken }
  | c :: rest =>
    if c = '"' then ⟨[], [c], rest, true⟩
    else if c = '\n' then ⟨[], [], c :: rest, false⟩
    else if c = '\\' then ⟨[], [c], rest, false⟩
    else
      let scan := scanText rest
      { scan with value := c :: scan.value, taken := c :: scan.taken }

/-- The fraction that may follow the digits of a number: a point with at least one digit. -/
def scanFraction : List Char → List Char × List Char
  | '.' :: d :: rest =>
    if d.isDigit then
      ('.' :: d :: rest.takeWhile Char.isDigit, rest.dropWhile Char.isDigit)
    else
      ([], '.' :: d :: rest)
  | rest => ([], rest)

/-- The rest of a number whose first character, a digit or a sign, has been read. -/
def scanNumber (rest : List Char) : List Char × List Char :=
  let fraction := scanFraction (rest.dropWhile Char.isDigit)
  (rest.takeWhile Char.isDigit ++ fraction.1, fraction.2)

/-! ## One piece -/

/-- Whether the text `c :: rest` starts with a number: a digit, or a minus sign and a digit. -/
def startsNumber (c : Char) (rest : List Char) : Bool :=
  c.isDigit || (c == '-' && rest.head?.any Char.isDigit)

/-- The piece that a text `c :: rest` starts with, and the text after it. -/
def next (c : Char) (rest : List Char) : Piece × List Char :=
  if Text.isBlank c then
    (⟨.blank, [c]⟩, rest)
  else if c == '/' && rest.head? == some '/' then
    (⟨.comment, c :: rest.takeWhile (· != '\n')⟩, rest.dropWhile (· != '\n'))
  else if c == '/' && rest.head? == some '*' then
    match splitComment rest.tail with
    | some (body, after) => (⟨.comment, c :: (rest.take 1 ++ body)⟩, after)
    | none => (⟨.openComment, c :: rest⟩, [])
  else if c == '"' then
    let scan := scanText rest
    (⟨if scan.closed then .text scan.value else .openText, c :: scan.taken⟩, scan.rest)
  else if startsNumber c rest then
    let number := scanNumber rest
    (⟨.number, c :: number.1⟩, number.2)
  else if isWordStart c then
    (⟨.word, c :: rest.takeWhile isWordPart⟩, rest.dropWhile isWordPart)
  else
    match Symbol.ofChar? c with
    | some mark => (⟨.symbol mark, [c]⟩, rest)
    | none => (⟨.unknown c, [c]⟩, rest)

theorem append_of_splitComment {text body after : List Char}
    (h : splitComment text = some (body, after)) : body ++ after = text := by
  fun_induction splitComment text generalizing body after with
  | case1 rest =>
    obtain ⟨rfl, rfl⟩ := Prod.mk.inj (Option.some.inj h)
    simp
  | case2 c rest _ ih =>
    obtain ⟨split, hs, he⟩ := Option.map_eq_some_iff.1 h
    obtain ⟨rfl, rfl⟩ := Prod.mk.inj he
    simp [ih hs]
  | case3 => simp at h

@[simp] theorem scanText_taken_append_rest (text : List Char) :
    (scanText text).taken ++ (scanText text).rest = text := by
  fun_induction scanText text with
  | case2 c rest scan ih => simpa [scan] using ih
  | case6 c rest _ _ _ _ scan ih => simpa [scan] using ih
  | _ => simp

@[simp] theorem scanFraction_append (text : List Char) :
    (scanFraction text).1 ++ (scanFraction text).2 = text := by
  fun_cases scanFraction text <;> simp

@[simp] theorem scanNumber_append (text : List Char) :
    (scanNumber text).1 ++ (scanNumber text).2 = text := by
  simp [scanNumber, List.append_assoc]

/-- Cutting off a piece loses no character. -/
@[simp] theorem next_chars_append (c : Char) (rest : List Char) :
    (next c rest).1.chars ++ (next c rest).2 = c :: rest := by
  unfold next
  repeat' split
  all_goals try simp
  rename_i hslash _ body after h
  have hrest : rest.head? = some '*' := by simp_all
  cases rest with
  | nil => simp at hrest
  | cons d rest => simpa using append_of_splitComment h

/-- Every piece has a character. -/
theorem next_chars_ne_nil (c : Char) (rest : List Char) : (next c rest).1.chars ≠ [] := by
  unfold next
  repeat' split
  all_goals simp

/-- What follows a piece is shorter than what it was cut from. -/
theorem length_next_lt (c : Char) (rest : List Char) :
    (next c rest).2.length < (c :: rest).length := by
  have h := congrArg List.length (next_chars_append c rest)
  have hpos := List.length_pos_iff.2 (next_chars_ne_nil c rest)
  simp only [List.length_append] at h
  omega

/-! ## Whole texts -/

/-- Cuts a text into its pieces. -/
def split : List Char → List Piece
  | [] => []
  | c :: rest => (next c rest).1 :: split (next c rest).2
termination_by text => text.length
decreasing_by exact length_next_lt c rest

/-- The pieces of a text, side by side, are the text. -/
theorem flatMap_chars_split (text : List Char) : (split text).flatMap chars = text := by
  fun_induction split text with
  | case1 => rfl
  | case2 c rest ih => simp [ih]

end Piece

end ProtoDecl
