import ProtoDecl.Schema.Grammar.Enum

/-!
# Reading services

A service holds methods.  A method names the type of its request and of its response, each in
parentheses and possibly a stream, and may have a body with options.
-/

namespace ProtoDecl.Schema.Parser

/-- The type of a request or a response, and whether it is a stream. -/
def methodType (what : String) : Parser (Bool × Name) := do
  let _ ← expect (.symbol .openParen) ("before rpc " ++ what ++ " type")
  let stream ← ask Cursor.startsStream
  if stream then
    skip
  let type ← typeName ("rpc " ++ what ++ " type")
  let _ ← expect (.symbol .closeParen) ("after rpc " ++ what ++ " type")
  return (stream, type)

/-- A statement in the body of a method. -/
def methodStatement (options : List OptionDecl) : Parser (List OptionDecl) := do
  if (← kind) = .keyword .option then
    return options ++ (← attempt optionStatement).toList
  else
    report .methodStatement
    skip
    return options

/-- The body of a method, or the semicolon in its place. -/
def methodEnd (name : String) : Parser (List OptionDecl) := do
  match ← accept (.symbol .openBrace) with
  | some _ => block (closingOf "rpc" name) methodStatement []
  | none =>
    tolerate (expectAs (.symbol .semicolon) .methodEnd)
    return []

/-- A method, with the cursor on its keyword. -/
def method : Parser Method := do
  let start := (← take).span
  let name ← name "rpc name"
  let (requestStream, request) ← methodType "request"
  let _ ← expect (.keyword .returns) "after rpc request type"
  let (responseStream, response) ← methodType "response"
  let options ← methodEnd name.text
  return ⟨name, request, requestStream, response, responseStream, options, ← spanFrom start⟩

/-- A statement in a service. -/
def serviceStatement (decl : Service) : Parser Service := do
  match ← kind with
  | .keyword .option =>
    return { decl with options := decl.options ++ (← attempt optionStatement).toList }
  | .keyword .rpc => return { decl with methods := decl.methods ++ (← attempt method).toList }
  | _ =>
    report .serviceStatement
    skip
    return decl

/-- A service, with the cursor on its keyword. -/
def service : Parser Service := do
  let start := (← take).span
  let name ← name "service name"
  let decl ← body "after service name" (closingOf "service" name.text) serviceStatement
    ⟨name, [], [], start⟩
  return { decl with span := ← spanFrom start }

end ProtoDecl.Schema.Parser
