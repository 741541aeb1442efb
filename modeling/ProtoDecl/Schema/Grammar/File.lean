import ProtoDecl.Schema.Grammar.Message
import ProtoDecl.Schema.Grammar.Service

/-!
# Reading files

`parse` reads a whole list of tokens.  It always yields a file: each fault is reported, and the
reading goes on behind it.
-/

namespace ProtoDecl.Schema

namespace Parser

/-- The statement `syntax = "…";`, with the cursor on its keyword. -/
def edition : Parser Edition := do
  let start := (← take).span
  let _ ← expect (.symbol .equals) "after 'syntax'"
  let version ← expectAs .text (.literal .text "syntax version string")
  tolerate (expect (.symbol .semicolon) "after syntax declaration")
  return ⟨textOf version, ← spanFrom start⟩

/-- A package statement, with the cursor on its keyword. -/
def package : Parser Package := do
  let start := (← take).span
  let name ← dottedName "package name"
  tolerate (expect (.symbol .semicolon) "after package name")
  return ⟨name, ← spanFrom start⟩

/-- The modifier of an import, if there is one. -/
def importModifier : Parser (Option ImportModifier) := do
  if (← accept (.keyword .weak)).isSome then
    return some .weak
  else if (← accept (.keyword .publicWord)).isSome then
    return some .publicly
  else
    return none

/-- An import, with the cursor on its keyword. -/
def importStatement : Parser Import := do
  let start := (← take).span
  let modifier ← importModifier
  let path ← expectAs .text (.literal .text "import path string")
  tolerate (expect (.symbol .semicolon) "after import")
  return ⟨textOf path, modifier, ← spanFrom start⟩

/-- The statement that names the version, which has to be the first of the file. -/
def editionStatement (isFirst : Bool) (file : File) : Parser File := do
  let edition ← attempt edition
  if isFirst then
    return { file with edition }
  else
    match edition with
    | some late =>
      complain (.lateEdition late.span)
      return file
    | none => return file

/-- A package statement, of which there may be one. -/
def packageStatement (file : File) : Parser File := do
  match ← attempt package with
  | none => return file
  | some package =>
    if file.package.isSome then
      complain (.repeatedPackage package.name.text package.span)
      return file
    else
      return { file with package := some package }

/-- A statement of a file. -/
def fileStatement (isFirst : Bool) (file : File) : Parser File := do
  match ← kind with
  | .keyword .syntaxWord => editionStatement isFirst file
  | .keyword .package => packageStatement file
  | .keyword .importWord =>
    return { file with imports := file.imports ++ (← attempt importStatement).toList }
  | .keyword .option =>
    return { file with options := file.options ++ (← attempt optionStatement).toList }
  | .keyword .enum => return { file with enums := file.enums ++ (← attempt enumDecl).toList }
  | .keyword .message =>
    return { file with messages := file.messages ++ (← attempt message).toList }
  | .keyword .service =>
    return { file with services := file.services ++ (← attempt service).toList }
  | .keyword .extend =>
    return { file with extendBlocks := file.extendBlocks ++ (← attempt extend).toList }
  | .symbol .semicolon =>
    skip
    return file
  | _ =>
    report .fileStatement
    skip
    return file

/-- The next statement of a file, unless it is at an end.  The flag says whether no statement came
before. -/
def fileEntry : Bool × File → Parser (Round (Bool × File))
  | (isFirst, file) => do
    if (← kind) = .endOfFile then
      return .done (isFirst, file)
    else
      return .again (false, ← fileStatement isFirst file)

/-- The statements of a file, up to its end. -/
def fileStatements : Bool × File → Parser (Bool × File) :=
  loop fileEntry

end Parser

/-- What was read: a file, and the errors in it. -/
structure Parsed where
  file : File
  errors : List SyntaxError

/-- Whether nothing was wrong. -/
def Parsed.isOk (p : Parsed) : Bool :=
  p.errors.isEmpty

/-- Reads a list of tokens as a file. -/
def parse (tokens : List Token) : Parsed :=
  match (Parser.fileStatements (true, {})).run (Cursor.ofTokens tokens) with
  | (result, c) =>
    let file := (result.map Prod.snd).getD {}
    { file := { file with span := ⟨1, 1, 0, c.current.span.stop⟩ }, errors := c.errors }

end ProtoDecl.Schema
