import ProtoDecl.Schema.Grammar.Name

/-!
# Reading options

An option assigns a constant to a name.  The name is dotted, or the name of an extension in
parentheses with further segments behind it.  Options stand in statements of their own and in
bracketed lists.
-/

namespace ProtoDecl.Schema.Parser

/-- The name of an option: `foo.bar` or `(foo.bar).baz`. -/
def optionName : Parser Name := do
  match ← accept (.symbol .openParen) with
  | none => dottedName "option name"
  | some start =>
    let extension ← typeName "extension name"
    let _ ← expect (.symbol .closeParen) "after extension name"
    let text ← segments "option name" ("(" ++ extension.text ++ ")")
    return ⟨text, ← spanFrom start.span⟩

/-- Whether a token of this kind ends an option that lacks its value. -/
def endsOption : Kind → Bool
  | .symbol .semicolon | .symbol .comma | .symbol .closeBracket | .symbol .closeBrace => true
  | .endOfFile => true
  | _ => false

/-- The value of an option.  Anything but a constant is reported, and passed over unless it ends the
option. -/
def optionValue : Parser (Option Constant) := do
  match ← kind with
  | .text => return some (.text (textOf (← take)))
  | .number => return some (.number (numberOf (← take)))
  | .keyword .trueWord => return some (.flag ⟨true, (← take).span⟩)
  | .keyword .falseWord => return some (.flag ⟨false, (← take).span⟩)
  | other =>
    report .optionValue
    if !endsOption other then
      skip
    return none

/-- An assignment `name = value`. -/
def assignment : Parser OptionDecl := do
  let start := (← current).span
  let name ← optionName
  let _ ← expect (.symbol .equals) "after option name"
  let value ← optionValue
  return ⟨name, value, ← spanFrom start⟩

/-- A statement `option name = value;`. -/
def optionStatement : Parser OptionDecl := do
  skip
  let decl ← assignment
  tolerate (expect (.symbol .semicolon) "after option")
  return decl

/-- The comma between two options of a list, which the last may have too. -/
def optionSeparator : Parser Unit := do
  if (← accept (.symbol .comma)).isNone then
    match ← kind with
    | .symbol .closeBracket | .symbol .semicolon | .symbol .closeBrace | .endOfFile => return
    | _ =>
      report .optionSeparator
      skip

/-- The next option of a list, or the bracket that closes it. -/
def optionEntry (options : List OptionDecl) : Parser (Round (List OptionDecl)) := do
  match ← kind with
  | .symbol .closeBracket =>
    skip
    return .done options
  | .symbol .semicolon | .symbol .closeBrace | .endOfFile =>
    report (.token (.symbol .closeBracket) "to close field options")
    return .done options
  | _ =>
    let (option?, moved) ← moving (attempt assignment)
    if moved then
      optionSeparator
    return .again (options ++ option?.toList)

/-- The list `[name = value, …]`, with the cursor on the opening bracket. -/
def optionList : Parser (List OptionDecl) := do
  skip
  loop optionEntry []

/-- A bracketed list of options, if one is next. -/
def options : Parser (List OptionDecl) := do
  if (← kind) = .symbol .openBracket then optionList else return []

end ProtoDecl.Schema.Parser
