import ProtoDecl.Text.Casing
import ProtoDecl.TypeScript.Alias
import ProtoDecl.TypeScript.Type
import ProtoDecl.TypeScript.Writer

/-!
# TypeScript declarations of a schema

`generate` writes a schema file as TypeScript declarations: its imports, then its enums, messages,
extensions and services.

* An enum becomes an enum.
* A message becomes an interface; what is declared inside it goes into a namespace of its name.
* An extension becomes an interface with the name of the extended message, which TypeScript merges
  with it, and all its members are optional.
* A service becomes an interface of methods.

Faulty files are written as far as they were read.
-/

namespace ProtoDecl.TypeScript

open Schema

/-- What can be chosen about the output. -/
structure Options where
  /-- Blanks for each level of depth. -/
  indentSize : Nat := 2
  /-- The module that an import path stands for. -/
  resolve : String → String := id

/-- The options on one line, under a title.  What the resolution does cannot be shown. -/
def Options.summary (o : Options) (title : String) : String :=
  title ++ " \x7b indent_size: " ++ toString o.indentSize ++ ", .. \x7d"

/-! ## Lines -/

/-- The line of an import with the given alias; without one it is passed on. -/
def importLine (resolve : String → String) (i : Import) (name? : Option String) : String :=
  let target := "\"" ++ resolve i.path.value ++ "\";"
  match name? with
  | none => "export * from " ++ target
  | some name => "import type * as " ++ name ++ " from " ++ target

/-- The lines of all imports of a file. -/
def importLines (resolve : String → String) (imports : List Import) : List String :=
  List.zipWith (importLine resolve) imports (aliases [] imports)

/-- The line of an entry of an enum. -/
def enumLine (v : EnumValue) : String :=
  v.name.text ++ " = " ++ v.number.raw ++ ","

/-- The members of a message: its own fields, then those of its groups of alternatives, all of
which are optional. -/
def members (m : Message) : List Member :=
  m.fields.map (Member.ofField false)
    ++ (m.oneofs.flatMap Oneof.fields).map (Member.ofField true)

/-- The members that an extension adds. -/
def extendMembers (e : Extend) : List Member :=
  e.fields.map (Member.ofField true)

/-- A name with its first letter in lower case. -/
def lowerFirst (name : String) : String :=
  match name.toList with
  | [] => ""
  | c :: rest => String.ofList (Text.toLower c ++ rest)

/-- The line of a method. -/
def methodLine (m : Method) : String :=
  let request := reference m.request.text
  let response := reference m.response.text
  lowerFirst m.name.text ++ "(request: "
    ++ (if m.requestStream then "AsyncIterable<" ++ request ++ ">" else request) ++ "): "
    ++ (if m.responseStream then "AsyncIterable<" else "Promise<") ++ response ++ ">;"

/-- The last segment of a dotted name. -/
def lastSegment (name : String) : String :=
  String.ofList (Text.afterLast (· == '.') name.toList)

/-! ## Declarations -/

/-- Writes the imports, which together are one declaration. -/
def writeImports (resolve : String → String) (imports : List Import) (w : Writer) : Writer :=
  if imports.isEmpty then w else w.beginDeclaration.lines (importLines resolve imports)

/-- Writes an enum. -/
def writeEnum (w : Writer) (e : EnumDecl) : Writer :=
  w.declaration ("export enum " ++ e.name.text) (e.values.map enumLine)

/-- Writes an extension. -/
def writeExtend (w : Writer) (e : Extend) : Writer :=
  w.declaration ("export interface " ++ lastSegment e.extendee.text)
    ((extendMembers e).map Member.line)

/-- Writes a service. -/
def writeService (w : Writer) (s : Service) : Writer :=
  w.declaration ("export interface " ++ s.name.text) (s.methods.map methodLine)

/-- Writes the interface of a message. -/
def writeInterface (w : Writer) (m : Message) : Writer :=
  w.declaration ("export interface " ++ m.name.text) ((members m).map Member.line)

mutual

/-- Writes a message: its interface, and a namespace for what is declared inside it. -/
def writeMessage (w : Writer) : Message → Writer
  | m@⟨_, _, _, _, messages, _, _, _, _, _⟩ =>
    let w := writeInterface w m
    if m.hasNested then
      let w := w.beginDeclaration.openScope ("export namespace " ++ m.name.text)
      let w := m.enums.foldl writeEnum w
      let w := writeMessages w messages
      (m.extendBlocks.foldl writeExtend w).closeScope
    else w

/-- Writes several messages. -/
def writeMessages (w : Writer) : List Message → Writer
  | [] => w
  | m :: rest => writeMessages (writeMessage w m) rest

end

/-- Writes a whole file. -/
def writeFile (o : Options) (f : File) : Writer :=
  let w := writeImports o.resolve f.imports (Writer.empty o.indentSize)
  let w := f.enums.foldl writeEnum w
  let w := writeMessages w f.messages
  let w := f.extendBlocks.foldl writeExtend w
  f.services.foldl writeService w

/-- The TypeScript declarations of a file. -/
def generate (f : File) (o : Options) : String :=
  (writeFile o f).output

end ProtoDecl.TypeScript
