import ProtoDecl.Schema.Grammar.Field
import ProtoDecl.Schema.Grammar.NumberList

/-!
# Reading enums
-/

namespace ProtoDecl.Schema.Parser

/-- The words with which a missing closing brace is reported. -/
def closingOf (what name : String) : String :=
  "to close " ++ what ++ " '" ++ name ++ "'"

/-- An entry of an enum. -/
def enumValue : Parser EnumValue := do
  let start := (← current).span
  let name ← name "enum value name"
  let _ ← expect (.symbol .equals) "after enum value name"
  let number ← integer "enum value number" .enumNumber
  let options ← options
  tolerate (expect (.symbol .semicolon) "after enum value")
  return ⟨name, number, options, ← spanFrom start⟩

/-- A statement in an enum. -/
def enumStatement (decl : EnumDecl) : Parser EnumDecl := do
  if (← kind) = .keyword .option then
    return { decl with options := decl.options ++ (← attempt optionStatement).toList }
  else if ← ask Cursor.startsReserved then
    return { decl with reserved := decl.reserved ++ [← reserved] }
  else
    return { decl with values := decl.values ++ (← attempt enumValue).toList }

/-- An enum, with the cursor on its keyword. -/
def enumDecl : Parser EnumDecl := do
  let start := (← take).span
  let name ← name "enum name"
  let decl ← body "after enum name" (closingOf "enum" name.text) enumStatement
    ⟨name, [], [], [], start⟩
  return { decl with span := ← spanFrom start }

end ProtoDecl.Schema.Parser
