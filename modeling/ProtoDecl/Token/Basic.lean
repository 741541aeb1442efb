import ProtoDecl.Span

/-!
# Tokens

The vocabulary of schema text: 25 keywords, 15 one-character symbols, three classes of literal
text, comments and the end of the file.

* `Keyword`, `Symbol` and `Kind`, with their spelling, their description in diagnostics and their
  label in listings;
* `Keyword.ofWord?` and `Symbol.ofChar?`, which recognise them;
* `Token`, a kind with its text and its span.

Keywords are recognised in any letter case and remain usable as names.
-/

namespace ProtoDecl

/-! ## Keywords -/

/-- The reserved words. -/
inductive Keyword where
  | syntaxWord
  | package
  | importWord
  | option
  | message
  | enum
  | service
  | rpc
  | returns
  | stream
  | repeated
  | optional
  | required
  | oneof
  | map
  | reserved
  | extensions
  | extend
  | upTo
  | max
  | trueWord
  | falseWord
  | weak
  | publicWord
  | group
deriving DecidableEq, Repr

namespace Keyword

/-- The label of a keyword in listings: its spelling with a capital. -/
def label : Keyword → String
  | syntaxWord => "Syntax"
  | package => "Package"
  | importWord => "Import"
  | option => "Option"
  | message => "Message"
  | enum => "Enum"
  | service => "Service"
  | rpc => "Rpc"
  | returns => "Returns"
  | stream => "Stream"
  | repeated => "Repeated"
  | optional => "Optional"
  | required => "Required"
  | oneof => "Oneof"
  | map => "Map"
  | reserved => "Reserved"
  | extensions => "Extensions"
  | extend => "Extend"
  | upTo => "To"
  | max => "Max"
  | trueWord => "True"
  | falseWord => "False"
  | weak => "Weak"
  | publicWord => "Public"
  | group => "Group"

/-- How a keyword is written, in small letters. -/
def spelling : Keyword → String
  | syntaxWord => "syntax"
  | package => "package"
  | importWord => "import"
  | option => "option"
  | message => "message"
  | enum => "enum"
  | service => "service"
  | rpc => "rpc"
  | returns => "returns"
  | stream => "stream"
  | repeated => "repeated"
  | optional => "optional"
  | required => "required"
  | oneof => "oneof"
  | map => "map"
  | reserved => "reserved"
  | extensions => "extensions"
  | extend => "extend"
  | upTo => "to"
  | max => "max"
  | trueWord => "true"
  | falseWord => "false"
  | weak => "weak"
  | publicWord => "public"
  | group => "group"

/-- Every keyword, each once. -/
def all : List Keyword :=
  [syntaxWord, package, importWord, option, message, enum, service, rpc, returns, stream,
    repeated, optional, required, oneof, map, reserved, extensions, extend, upTo, max, trueWord,
    falseWord, weak, publicWord, group]

theorem mem_all (k : Keyword) : k ∈ all := by
  cases k <;> decide

/-- The keyword that a word spells, letter case aside.  Only the 26 Latin letters have a case
here, so a word with any other character is none. -/
def ofWord? (word : List Char) : Option Keyword :=
  all.find? fun k => k.spelling.toList == word.map Char.toLower

end Keyword

/-! ## Symbols -/

/-- The one-character symbols. -/
inductive Symbol where
  | equals
  | semicolon
  | openBrace
  | closeBrace
  | openBracket
  | closeBracket
  | openParen
  | closeParen
  | openAngle
  | closeAngle
  | comma
  | dot
  | colon
  | minus
  | plus
deriving DecidableEq, Repr

namespace Symbol

/-- The character of a symbol. -/
def char : Symbol → Char
  | equals => '='
  | semicolon => ';'
  | openBrace => '\x7b'
  | closeBrace => '\x7d'
  | openBracket => '['
  | closeBracket => ']'
  | openParen => '('
  | closeParen => ')'
  | openAngle => '<'
  | closeAngle => '>'
  | comma => ','
  | dot => '.'
  | colon => ':'
  | minus => '-'
  | plus => '+'

/-- The label of a symbol in listings. -/
def label : Symbol → String
  | equals => "Equals"
  | semicolon => "Semicolon"
  | openBrace => "LBrace"
  | closeBrace => "RBrace"
  | openBracket => "LBracket"
  | closeBracket => "RBracket"
  | openParen => "LParen"
  | closeParen => "RParen"
  | openAngle => "LAngle"
  | closeAngle => "RAngle"
  | comma => "Comma"
  | dot => "Dot"
  | colon => "Colon"
  | minus => "Minus"
  | plus => "Plus"

/-- Every symbol, each once. -/
def all : List Symbol :=
  [equals, semicolon, openBrace, closeBrace, openBracket, closeBracket, openParen, closeParen,
    openAngle, closeAngle, comma, dot, colon, minus, plus]

theorem mem_all (s : Symbol) : s ∈ all := by
  cases s <;> decide

/-- The symbol that a character is. -/
def ofChar? (c : Char) : Option Symbol :=
  all.find? fun s => s.char == c

@[simp] theorem ofChar?_char (s : Symbol) : ofChar? s.char = some s := by
  cases s <;> decide

theorem char_of_ofChar? {c : Char} {s : Symbol} (h : ofChar? c = some s) : s.char = c := by
  simpa using List.find?_some h

end Symbol

/-! ## Kinds -/

/-- What a token is. -/
inductive Kind where
  | identifier
  | text
  | number
  | keyword (word : Keyword)
  | symbol (mark : Symbol)
  | comment
  | endOfFile
deriving DecidableEq, Repr

namespace Kind

/-- Whether the kind is one of the reserved words. -/
def isKeyword : Kind → Bool
  | keyword _ => true
  | _ => false

/-- Whether a token of this kind may stand as a name: an identifier, or any keyword. -/
def isName : Kind → Bool
  | identifier => true
  | keyword _ => true
  | _ => false

/-- How diagnostics speak of the kind. -/
def describe : Kind → String
  | identifier => "identifier"
  | text => "string literal"
  | number => "number literal"
  | keyword word => "'" ++ word.spelling ++ "'"
  | symbol mark => "'" ++ mark.char.toString ++ "'"
  | comment => "comment"
  | endOfFile => "end of file"

/-- The label of the kind in listings. -/
def label : Kind → String
  | identifier => "Identifier"
  | text => "StringLiteral"
  | number => "NumberLiteral"
  | keyword word => word.label
  | symbol mark => mark.label
  | comment => "Comment"
  | endOfFile => "Eof"

/-- Every kind, each once. -/
def all : List Kind :=
  [identifier, text, number] ++ Keyword.all.map keyword ++ Symbol.all.map symbol
    ++ [comment, endOfFile]

theorem mem_all (k : Kind) : k ∈ all := by
  cases k with
  | keyword w => simp [all, Keyword.mem_all]
  | symbol s => simp [all, Symbol.mem_all]
  | _ => simp [all]

/-- The kind with a given label. -/
def ofLabel? (name : String) : Option Kind :=
  all.find? fun k => k.label == name

end Kind

/-! ## Tokens -/

/-- A token.  The value of a string literal is its decoded content; the value of any other token
is its source text. -/
structure Token where
  kind : Kind
  value : String
  span : Span
deriving DecidableEq, Repr

end ProtoDecl
