import ProtoDecl.Schema.Basic
import ProtoDecl.Schema.Parser

/-!
# Reading names and literals

Names are identifiers or keywords.  A dotted name is a sequence of names with dots between; types
may carry a leading dot.
-/

namespace ProtoDecl.Schema.Parser

/-- A single name. -/
def name (subject : String) : Parser Name := do
  let t ← current
  if t.kind.isName then
    skip
    return ⟨t.value, t.span⟩
  else
    want (.name subject)

/-- One more segment of a dotted name that begins with `text`, if a dot is next. -/
def segment (subject text : String) : Parser (Round String) := do
  match ← accept (.symbol .dot) with
  | none => return .done text
  | some _ =>
    let t ← current
    if t.kind.isName then
      skip
      return .again (text ++ "." ++ t.value)
    else
      report (.segment subject)
      return .done text

/-- The further segments of a dotted name that begins with `text`. -/
def segments (subject : String) : String → Parser String :=
  loop (segment subject)

/-- A dotted name without a leading dot. -/
def dottedName (subject : String) : Parser Name := do
  let start := (← current).span
  let first ← name subject
  let text ← segments subject first.text
  return ⟨text, ← spanFrom start⟩

/-- A dotted name that may have a leading dot. -/
def typeName (subject : String) : Parser Name := do
  let start := (← current).span
  let dot ← accept (.symbol .dot)
  let first ← name subject
  let text ← segments subject ((if dot.isSome then "." else "") ++ first.text)
  return ⟨text, ← spanFrom start⟩

/-- A token as a string literal. -/
def textOf (t : Token) : TextLit :=
  ⟨t.value, t.span⟩

/-- A token as a number literal. -/
def numberOf (t : Token) : NumberLit :=
  ⟨t.value, t.span⟩

/-- A keyword as a name, in small letters. -/
def wordOf (t : Token) : Name :=
  ⟨String.ofList (t.value.toList.map Char.toLower), t.span⟩

end ProtoDecl.Schema.Parser
