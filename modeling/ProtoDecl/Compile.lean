import ProtoDecl.Diagnostic
import ProtoDecl.Schema.Grammar.File
import ProtoDecl.TypeScript.Generate

/-!
# Compiling a source text

The whole way from schema text to TypeScript.  Faulty pieces of text stop it before anything is read
from the tokens, and then only they are reported; otherwise every fault in the tokens is.  Code
comes only from a text without any fault.
-/

namespace ProtoDecl

/-- The schema of a source text, or everything that is wrong with the text. -/
def readSchema (source : String) : Except (List Diagnostic) Schema.File :=
  let scan := tokenize source
  if !scan.errors.isEmpty then .error (scan.errors.map Diagnostic.ofLexical)
  else
    let parsed := Schema.parse scan.tokens
    if !parsed.errors.isEmpty then .error (parsed.errors.map Diagnostic.ofSyntax)
    else .ok parsed.file

/-- What compiling gives: code, or the faults that prevented it. -/
structure Compiled where
  code : String
  errors : List Diagnostic
deriving DecidableEq, Repr

/-- Whether there is code. -/
def Compiled.isOk (c : Compiled) : Bool :=
  c.errors.isEmpty

/-- Compiles a source text to TypeScript declarations. -/
def compile (source : String) (options : TypeScript.Options) : Compiled :=
  match readSchema source with
  | .ok file => ⟨TypeScript.generate file options, []⟩
  | .error errors => ⟨"", errors⟩

end ProtoDecl
