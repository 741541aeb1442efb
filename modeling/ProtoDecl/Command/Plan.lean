import ProtoDecl.Command.Directory
import ProtoDecl.Compile
import ProtoDecl.Descriptor.Wire
import ProtoDecl.Listing.Tree
import ProtoDecl.Report
import ProtoDecl.Settings.Basic

/-!
# Plans

A command reads at most two files, writes at most one, and says what it did.  `Conventions.plan`
decides everything from the arguments and the contents of the files; what is left is to store one
file and to print.  `Conventions.run` does that on a directory.

The forms of arguments, settings and listings are not decided here.  These are the `Conventions`, and
every command is planned under any of them.
-/

namespace ProtoDecl.Command

/-! ## Requests -/

/-- What to do with an input file. -/
inductive Action where
  /-- Write declarations, to the standard output unless a file is named. -/
  | compile (input : String) (output : Option String) (indent : Option Nat)
      (settings : Option String)
  /-- List the tokens. -/
  | tokens (input : String)
  /-- List the tree. -/
  | tree (input : String)
  /-- Write a descriptor, which names the schema by its path unless a name is given. -/
  | descriptor (input output : String) (name : Option String)
deriving DecidableEq, Repr

/-- What arguments ask for. -/
inductive Request where
  /-- Nothing that could be done, for the given reason, which goes to the standard error. -/
  | refuse (reason : String)
  /-- A text about the program, which goes to the standard output. -/
  | inform (text : String)
  /-- An action, perhaps with more messages. -/
  | perform (action : Action) (verbose : Bool)
deriving DecidableEq, Repr

/-- The forms of what goes in and out, for which the program relies on others. -/
structure Conventions where
  /-- What arguments ask for. -/
  request : List String → Request
  /-- The settings that a text holds, or why it holds none.  Whether they can be used is another
  question. -/
  settings : String → Except String Settings
  /-- A listing as a text. -/
  listing : Listing.Json → String

/-! ## Results -/

/-- What a run leaves behind, files apart. -/
structure Output where
  exit : Nat := 0
  stdout : String := ""
  stderr : String := ""
deriving DecidableEq, Repr

/-- What is left to do once everything is decided. -/
inductive Plan where
  /-- Print. -/
  | print (output : Output)
  /-- Store a file, and print one thing if that succeeds and another if it fails. -/
  | store (path : String) (bytes : Bytes) (stored : Output) (refused : FileError → Output)

/-- The lines for the causes of a failure, which are numbered if there are several. -/
def causeLines : List String → String
  | [] => ""
  | [cause] => "\nCaused by:\n    " ++ cause ++ "\n"
  | causes =>
    "\nCaused by:\n" ++ String.join (causes.zipIdx.map fun (cause, place) =>
      "    " ++ toString place ++ ": " ++ cause ++ "\n")

/-- A failure, with what was said before it. -/
def failure (before message : String) (causes : List String) : Output :=
  { exit := 1, stderr := before ++ "Error: " ++ message ++ "\n" ++ causeLines causes }

/-- The failure that reports what is wrong with a source text. -/
def rejected (before input source : String) (errors : List Diagnostic) : Output :=
  let count := toString errors.length ++ (if errors.length = 1 then " error" else " errors")
  failure (before ++ Report.formatAll .plain source input errors)
    ("could not compile " ++ input ++ " (" ++ count ++ ")") []

/-! ## Files -/

/-- How files are read. -/
abbrev Reader := String → Except FileError Bytes

/-- The bytes of a text. -/
def bytesOf (text : String) : Bytes :=
  text.toUTF8.data.toList

/-- Reads a text. -/
def readText (read : Reader) (path : String) : Except FileError String :=
  match read path with
  | .error e => .error e
  | .ok bytes =>
    match String.fromUTF8? ⟨bytes.toArray⟩ with
    | some text => .ok text
    | none => .error .notText

/-- Reads the input of a command. -/
def readSource (read : Reader) (input : String) : Except Output String :=
  (readText read input).mapError fun e => failure "" ("Failed to read " ++ input) [e.message]

/-- Reads the options that a file with settings gives. -/
def Conventions.readOptions (c : Conventions) (read : Reader) :
    Option String → Except Output TypeScript.Options
  | none => .ok {}
  | some path =>
    let refuse causes := failure "" ("Failed to load config " ++ path) causes
    match readText read path with
    | .error e => .error (refuse ["IO error: " ++ e.message, e.message])
    | .ok text =>
      match c.settings text with
      | .error reason => .error (refuse ["YAML error: " ++ reason, reason])
      | .ok settings =>
        match settings.checked with
        | .error e => .error (refuse [e.message])
        | .ok settings => .ok settings.options

/-- The options with the indentation that the arguments ask for. -/
def withIndent (options : TypeScript.Options) : Option Nat → Except Output TypeScript.Options
  | none => .ok options
  | some 0 => .error (failure "" "--indent must be at least 1" [])
  | some n => .ok { options with indentSize := n }

/-! ## Commands -/

/-- Stores a file, and says so behind what was said before. -/
def storeFile (before path : String) (bytes : Bytes) (done : String) : Plan :=
  .store path bytes { stderr := before ++ done ++ "\n" } fun e =>
    failure before ("Failed to write " ++ path) [e.message]

/-- Writes declarations.  The source is read before the settings, and those before the indentation
is looked at. -/
def Conventions.planCompile (c : Conventions) (read : Reader) (verbose : Bool) (input : String)
    (output : Option String) (indent : Option Nat) (settings : Option String) :
    Except Output Plan := do
  let source ← readSource read input
  let options ← withIndent (← c.readOptions read settings) indent
  let before :=
    if verbose then
      "→ Compiling " ++ input ++ "\n  Indent: " ++ toString options.indentSize ++ "\n"
    else ""
  let compiled := compile source options
  if !compiled.isOk then throw (rejected before input source compiled.errors)
  match output with
  | none => return .print { stdout := compiled.code, stderr := before }
  | some path => return storeFile before path (bytesOf compiled.code) ("✓ Wrote " ++ path)

/-- Lists the tokens. -/
def Conventions.planTokens (c : Conventions) (read : Reader) (input : String) :
    Except Output Plan := do
  let source ← readSource read input
  let scan := tokenize source
  if !scan.errors.isEmpty then
    throw (rejected "" input source (scan.errors.map Diagnostic.ofLexical))
  let tokens := Listing.Json.ofList Listing.ofToken scan.tokens
  return .print { stdout := c.listing tokens ++ "\n" }

/-- Reads a schema. -/
def readFile (read : Reader) (input : String) : Except Output Schema.File := do
  let source ← readSource read input
  (readSchema source).mapError (rejected "" input source)

/-- Lists the tree. -/
def Conventions.planTree (c : Conventions) (read : Reader) (input : String) :
    Except Output Plan := do
  let file ← readFile read input
  return .print { stdout := c.listing (Listing.ofFile file) ++ "\n" }

/-- Writes a descriptor. -/
def planDescriptor (read : Reader) (input output : String) (name : Option String) :
    Except Output Plan := do
  let file ← readFile read input
  let name := name.getD input
  let bytes := Descriptor.encodeSet file name
  return storeFile "" output bytes ("✓ Wrote descriptor set for " ++ name ++ " ("
    ++ toString bytes.length ++ " bytes) to " ++ output)

namespace Conventions

/-- What an action comes to. -/
def planAction (c : Conventions) (read : Reader) (verbose : Bool) : Action → Except Output Plan
  | .compile input output indent settings => c.planCompile read verbose input output indent settings
  | .tokens input => c.planTokens read input
  | .tree input => c.planTree read input
  | .descriptor input output name => planDescriptor read input output name

/-- What arguments come to. -/
def plan (c : Conventions) (arguments : List String) (read : Reader) : Plan :=
  match c.request arguments with
  | .refuse reason => .print { exit := 2, stderr := reason }
  | .inform text => .print { stdout := text }
  | .perform action verbose =>
    match c.planAction read verbose action with
    | .ok plan => plan
    | .error output => .print output

/-- The files that a run may read. -/
def paths (c : Conventions) (arguments : List String) : List String :=
  match c.request arguments with
  | .perform (.compile input _ _ settings) _ => input :: settings.toList
  | .perform (.tokens input) _ => [input]
  | .perform (.tree input) _ => [input]
  | .perform (.descriptor input _ _) _ => [input]
  | _ => []

/-- Runs the program in a directory. -/
def run (c : Conventions) (arguments : List String) (d : Directory) : Output × Directory :=
  match c.plan arguments d.read with
  | .print output => (output, d)
  | .store path bytes stored refused =>
    match d.write path bytes with
    | .ok d' => (stored, d')
    | .error e => (refused e, d)

end Conventions

end ProtoDecl.Command
