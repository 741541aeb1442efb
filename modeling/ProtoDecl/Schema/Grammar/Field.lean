import ProtoDecl.Schema.Grammar.Option

/-!
# Reading fields

A field has an optional label, a type, a name and a number, and may carry options.  A declaration
that breaks off before its number describes no field; what is missing behind the number is reported
and the field kept.
-/

namespace ProtoDecl.Schema.Parser

/-- A type, given how to read the types inside it: `map<K, V>`, or a dotted name. -/
def fieldTypeWith (inner : Parser FieldType) : Parser FieldType := do
  let start := (← current).span
  if ← ask Cursor.startsMap then
    let name := wordOf (← take)
    skip
    let key ← inner
    let _ ← expect (.symbol .comma) "between map key and value types"
    let value ← inner
    let _ ← expect (.symbol .closeAngle) "to close map type"
    return ⟨name, [key, value], ← spanFrom start⟩
  else
    let name ← typeName "field type"
    return ⟨name, [], name.span⟩

/-- The type of a field. -/
def fieldType : Parser FieldType :=
  recursive (.name "field type") fieldTypeWith

/-- The label that a kind of token is. -/
def labelOf? : Kind → Option Label
  | .keyword .optional => some .optional
  | .keyword .required => some .required
  | .keyword .repeated => some .repeated
  | _ => none

/-- The label of a field, if there is one. -/
def fieldLabel : Parser (Option FieldLabel) := do
  match labelOf? (← kind) with
  | some label => return some ⟨label, (← take).span⟩
  | none => return none

/-- A number that has to be an integer, or else `fault` is reported. -/
def integer (subject : String) (fault : String → Span → SyntaxError) : Parser NumberLit := do
  let n := numberOf (← expectAs .number (.literal .number subject))
  if n.integer?.isSome then
    return n
  else
    reject (fault n.raw n.span)

/-- A field. -/
def field : Parser Field := do
  let start := (← current).span
  let label ← fieldLabel
  let type ← fieldType
  let name ← name "field name"
  let _ ← expect (.symbol .equals) "after field name"
  let number ← integer "field number" .fieldNumber
  let options ← options
  tolerate (expect (.symbol .semicolon) "after field declaration")
  return ⟨label, type, name, number, options, ← spanFrom start⟩

end ProtoDecl.Schema.Parser
