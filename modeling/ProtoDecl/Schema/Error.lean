import ProtoDecl.Text.Quoted
import ProtoDecl.Token.Basic

/-!
# Syntax errors

What can be wrong with a list of tokens.  Most errors are of one form: at some point a certain thing
was wanted, and another token was found (`SyntaxError.unexpected`).  The remaining ones concern
statements that are well formed by themselves.

* `Wanted`, what was wanted, with its wording and the kinds of token that would have done;
* `SyntaxError`, with its message, its span and the expected kinds.
-/

namespace ProtoDecl

/-- How a diagnostic speaks of a token that it found. -/
def Token.describe (t : Token) : String :=
  match t.kind with
  | .identifier => t.kind.describe ++ " '" ++ t.value ++ "'"
  | .number => t.kind.describe ++ " '" ++ t.value ++ "'"
  | .text => t.kind.describe ++ " " ++ Text.quote t.value
  | kind => kind.describe

namespace Schema

/-- What was wanted at the point of an error. -/
inductive Wanted where
  /-- A name, such as "enum name". -/
  | name (subject : String)
  /-- The segment behind a dot in a dotted name. -/
  | segment (subject : String)
  /-- A literal of a certain kind, such as "field number". -/
  | literal (kind : Kind) (subject : String)
  /-- A certain token; the point is given as in "after import". -/
  | token (kind : Kind) (point : String)
  /-- The value of an option. -/
  | optionValue
  /-- What divides or closes a bracketed list of options. -/
  | optionSeparator
  /-- A statement of a file. -/
  | fileStatement
  /-- A statement of a service. -/
  | serviceStatement
  /-- A statement in the body of a method. -/
  | methodStatement
  /-- The end of a method, or its body. -/
  | methodEnd
  /-- An item of a list of numbers or names. -/
  | item (subject : String) (kinds : List Kind) (list : String) (afterComma : Bool)
  /-- What divides or ends such a list. -/
  | separator (list : String)
  /-- The upper end of a range of numbers. -/
  | rangeEnd
deriving DecidableEq, Repr

namespace Wanted

/-- The wording, up to what was found instead. -/
def text : Wanted → String
  | name subject => "Expected " ++ subject
  | segment subject => "Expected identifier after '.' in " ++ subject
  | literal _ subject => "Expected " ++ subject
  | token kind point => "Expected " ++ kind.describe ++ " " ++ point
  | optionValue => "Expected option value (string, number or boolean)"
  | optionSeparator => "Expected ',' or ']' in field options"
  | fileStatement => "Unexpected token at top level"
  | serviceStatement => "Unexpected token in service body"
  | methodStatement => "Unexpected token in rpc body"
  | methodEnd => "Expected ';' or '\x7b' after rpc declaration"
  | item subject _ list afterComma =>
    "Expected " ++ subject ++ (if afterComma then " after ','" else "") ++ " in " ++ list
  | separator list => "Expected ',' or ';' in " ++ list
  | rangeEnd => "Expected number or 'max' after 'to'"

/-- The kinds of token that would have done. -/
def kinds : Wanted → List Kind
  | name _ => [.identifier]
  | segment _ => [.identifier]
  | literal kind _ => [kind]
  | token kind _ => [kind]
  | optionValue => [.text, .number, .keyword .trueWord, .keyword .falseWord]
  | optionSeparator => [.symbol .comma, .symbol .closeBracket]
  | fileStatement =>
    [.keyword .syntaxWord, .keyword .package, .keyword .importWord, .keyword .option,
      .keyword .enum, .keyword .message, .keyword .service, .keyword .extend]
  | serviceStatement => [.keyword .rpc, .keyword .option, .symbol .closeBrace]
  | methodStatement => [.keyword .option, .symbol .closeBrace]
  | methodEnd => [.symbol .semicolon]
  | item _ kinds _ _ => kinds
  | separator _ => [.symbol .comma, .symbol .semicolon]
  | rangeEnd => [.number, .keyword .max]

end Wanted

/-- What can be wrong with a list of tokens. -/
inductive SyntaxError where
  /-- Another token stood where something was wanted. -/
  | unexpected (wanted : Wanted) (found : Token)
  /-- The version of the language is named behind another statement. -/
  | lateEdition (span : Span)
  /-- A second package statement. -/
  | repeatedPackage (name : String) (span : Span)
  /-- A field number that is no integer. -/
  | fieldNumber (raw : String) (span : Span)
  /-- An enum value that is no integer. -/
  | enumNumber (raw : String) (span : Span)
deriving DecidableEq, Repr

namespace SyntaxError

/-- The wording of the error. -/
def message : SyntaxError → String
  | unexpected wanted found => wanted.text ++ ", found " ++ found.describe
  | lateEdition _ => "Syntax declaration must be the first statement"
  | repeatedPackage name _ => "Multiple package declarations ('" ++ name ++ "')"
  | fieldNumber raw _ => "Field number must be an integer, found '" ++ raw ++ "'"
  | enumNumber raw _ => "Enum value must be an integer, found '" ++ raw ++ "'"

/-- Where the error is. -/
def span : SyntaxError → Span
  | unexpected _ found => found.span
  | lateEdition span => span
  | repeatedPackage _ span => span
  | fieldNumber _ span => span
  | enumNumber _ span => span

/-- The kinds of token that would have been accepted. -/
def expected : SyntaxError → List Kind
  | unexpected wanted _ => wanted.kinds
  | _ => []

/-- The error and its place on one line. -/
def display (e : SyntaxError) : String :=
  e.message ++ " at " ++ e.span.place

end SyntaxError

end Schema

end ProtoDecl
