import ProtoDecl.Yaml.Basic

/-!
# YAML scalars

A scalar is written in single quotes, in double quotes or plainly.  It may run over several lines; a
single line end in it counts as a blank, and of several the first is dropped.

Every function gives no result for a malformed text.
-/

namespace ProtoDecl.Yaml

/-! ## Between two words -/

/-- What stands between two words of a scalar. -/
structure Gap where
  /-- The blanks before the first line end. -/
  blanks : List Char := []
  /-- Whether a line ends. -/
  broken : Bool := false
  /-- The first line end that counts. -/
  first : Option Char := none
  /-- The other line ends. -/
  others : List Char := []

namespace Gap

/-- A gap with one more line end. -/
def addBreak (g : Gap) (c : Char) : Gap :=
  if g.broken then { g with others := g.others ++ [c] }
  else { g with broken := true, first := some c }

/-- What a gap adds to the text of the scalar. -/
def text (g : Gap) : List Char :=
  if !g.broken then g.blanks
  else
    match g.first with
    | none => g.others
    | some c =>
      if c != '\n' then c :: g.others
      else if g.others.isEmpty then [' ']
      else g.others

/-- Reads on until a word begins.  On a new line a tab may not stand before the column `margin`. -/
def scan (margin : Nat) (g : Gap) (line column : Nat) : List Char → Option (Gap × Cursor)
  | [] => some (g, ⟨[], line, column, g.broken⟩)
  | c :: rest =>
    if isBreak c then scan margin (g.addBreak c) (line + 1) 0 rest
    else if !isBlank c then some (g, ⟨c :: rest, line, column, g.broken⟩)
    else if !g.broken then scan margin { g with blanks := g.blanks ++ [c] } line (column + 1) rest
    else if c = '\t' && column < margin then none
    else scan margin g line (column + 1) rest

end Gap

/-! ## Plain scalars -/

/-- The characters that end a plain scalar inside brackets. -/
def bracketMarks : List Char :=
  [',', '[', ']', '\x7b', '\x7d']

/-- The characters that begin no plain scalar by themselves. -/
def indicators : List Char :=
  ['-', '?', ':', ',', '[', ']', '\x7b', '\x7d', '#', '&', '*', '!', '|', '>', '\'', '"', '%', '@',
    '\x60']

/-- Whether a plain scalar begins with the given text. -/
def beginsPlain (inBrackets : Bool) : List Char → Bool
  | [] => false
  | c :: rest =>
    if isBlank c || isBreak c then false
    else if !indicators.contains c then true
    else if c = '-' then !endsWord rest
    else !inBrackets && (c = '?' || c = ':') && !endsWord rest

/-- A word of a plain scalar.  Inside brackets a colon may not stand before another mark. -/
def plainWord (inBrackets : Bool) (line column : Nat) :
    List Char → Option (List Char × Cursor)
  | [] => some ([], ⟨[], line, column, false⟩)
  | c :: rest =>
    if isBlank c || isBreak c then some ([], ⟨c :: rest, line, column, false⟩)
    else if inBrackets && c = ':' && rest.head?.any ('?' :: bracketMarks).contains then none
    else if (c = ':' && endsWord rest) || (inBrackets && bracketMarks.contains c) then
      some ([], ⟨c :: rest, line, column, false⟩)
    else
      match plainWord inBrackets line (column + 1) rest with
      | none => none
      | some (word, next) => some (c :: word, next)

/-- The words of a plain scalar from here on, each behind a gap.  A line that begins before the
column `margin` does not belong to it outside brackets.  Every round takes a character, so as many
rounds as there are characters are enough. -/
def plainWords (inBrackets : Bool) (margin : Nat) :
    Nat → List Char → Cursor → Option (List Char × Cursor)
  | 0, _, c => some ([], c)
  | rounds + 1, gap, c => do
    if c.atMarker || c.at? '#' then return ([], c)
    let (word, next) ← plainWord inBrackets c.line c.column c.rest
    if word.isEmpty then return ([], c)
    if next.rest.isEmpty || !endsWord next.rest then return (gap ++ word, next)
    let (gap', next') ← Gap.scan margin {} next.line next.column next.rest
    if !inBrackets && next'.column < margin then return (gap ++ word, next')
    let (more, last) ← plainWords inBrackets margin rounds gap'.text next'
    return (gap ++ word ++ more, last)

/-- A plain scalar. -/
def plain (inBrackets : Bool) (margin : Nat) (c : Cursor) : Option (Node × Cursor) := do
  let (text, next) ← plainWords inBrackets margin c.rest.length [] c
  if text.isEmpty then none else return (.scalar true (String.ofList text), next)

/-! ## Quoted scalars -/

/-- The value of a hexadecimal digit. -/
def hexDigit? (c : Char) : Option Nat :=
  if c.isDigit then some (c.toNat - '0'.toNat)
  else if 'a' ≤ c && c ≤ 'f' then some (c.toNat - 'a'.toNat + 10)
  else if 'A' ≤ c && c ≤ 'F' then some (c.toNat - 'A'.toNat + 10)
  else none

/-- The character with the code that the first `count` digits give. -/
def codePoint? (count : Nat) (digits : List Char) : Option Char := do
  if digits.length < count then none
  let values ← (digits.take count).mapM hexDigit?
  let code := values.foldl (fun n d => n * 16 + d) 0
  if code.isValidChar then return Char.ofNat code else none

/-- The character that an escape stands for, and how many characters follow the backslash. -/
def escape? : List Char → Option (Char × Nat)
  | [] => none
  | 'x' :: rest => (codePoint? 2 rest).map fun c => (c, 3)
  | 'u' :: rest => (codePoint? 4 rest).map fun c => (c, 5)
  | 'U' :: rest => (codePoint? 8 rest).map fun c => (c, 9)
  | c :: _ =>
    let table : List (Char × Char) :=
      [('0', '\x00'), ('a', '\x07'), ('b', '\x08'), ('t', '\t'), ('\t', '\t'), ('n', '\n'),
        ('v', '\x0b'), ('f', '\x0c'), ('r', '\r'), ('e', '\x1b'), (' ', ' '), ('"', '"'),
        ('/', '/'), ('\\', '\\'), ('N', '\u0085'), ('_', '\u00a0'), ('L', '\u2028'),
        ('P', '\u2029')]
    (table.lookup c).map fun value => (value, 1)

/-- A word of a quoted scalar. -/
structure QuotedWord where
  text : List Char
  /-- Whether an escaped line end follows the word. -/
  escapedBreak : Bool
  next : Cursor

/-- A word of a scalar in the given quotes.  A quote is written twice in single quotes and escaped
in double ones. -/
def quotedWord (quote : Char) (line column : Nat) (text : List Char) : Option QuotedWord :=
  match text with
  | [] => some ⟨[], false, ⟨[], line, column, false⟩⟩
  | c :: rest =>
    if isBlank c || isBreak c then some ⟨[], false, ⟨c :: rest, line, column, false⟩⟩
    else if c = quote then
      if quote = '\'' && rest.head? = some '\'' then
        (quotedWord quote line (column + 2) (rest.drop 1)).map fun w =>
          { w with text := c :: w.text }
      else some ⟨[], false, ⟨c :: rest, line, column, false⟩⟩
    else if quote = '"' && c = '\\' then
      if rest.head?.any isBreak then some ⟨[], true, ⟨rest.drop 1, line + 1, 0, false⟩⟩
      else
        match escape? rest with
        | none => none
        | some (value, count) =>
          (quotedWord quote line (column + 1 + count) (rest.drop count)).map fun w =>
            { w with text := value :: w.text }
    else
      (quotedWord quote line (column + 1) rest).map fun w => { w with text := c :: w.text }
termination_by text.length

/-- What is left of a quoted scalar.  Every round but the last takes a character, so one more than
there are characters are enough. -/
def quotedWords (quote : Char) : Nat → Cursor → Option (List Char × Cursor)
  | 0, _ => none
  | rounds + 1, c => do
    if c.atMarker || c.rest.isEmpty then none
    let word ← quotedWord quote c.line c.column c.rest
    if word.next.at? quote then return (word.text, word.next.drop 1)
    let (gap, next) ←
      Gap.scan 0 { broken := word.escapedBreak } word.next.line word.next.column word.next.rest
    let (more, last) ← quotedWords quote rounds next
    return (word.text ++ gap.text ++ more, last)

/-- A scalar in quotes. -/
def quoted (quote : Char) (c : Cursor) : Option (Node × Cursor) := do
  let (text, next) ← quotedWords quote (c.rest.length + 1) (c.drop 1)
  return (.scalar false (String.ofList text), next.stale)

end ProtoDecl.Yaml
