import ProtoDecl.Schema.Grammar.Enum

/-!
# Reading messages

Messages, and what only they contain: groups of alternatives and blocks that extend other messages.

Keywords may be names, so in a message the keyword of a declaration only counts as one if what
follows looks like the declaration.  Otherwise the statement is a field.
-/

namespace ProtoDecl.Schema.Parser

/-! ## Alternatives and extensions -/

/-- A statement in a group of alternatives. -/
def oneofStatement (decl : Oneof) : Parser Oneof := do
  if (← kind) = .keyword .option then
    return { decl with options := decl.options ++ (← attempt optionStatement).toList }
  else
    return { decl with fields := decl.fields ++ (← attempt field).toList }

/-- A group of alternatives, with the cursor on its keyword. -/
def oneof : Parser Oneof := do
  let start := (← take).span
  let name ← name "oneof name"
  let decl ← body "after oneof name" (closingOf "oneof" name.text) oneofStatement
    ⟨name, [], [], start⟩
  return { decl with span := ← spanFrom start }

/-- A field in a block that extends a message. -/
def extendStatement (decl : Extend) : Parser Extend := do
  return { decl with fields := decl.fields ++ (← attempt field).toList }

/-- A block that extends a message, with the cursor on its keyword. -/
def extend : Parser Extend := do
  let start := (← take).span
  let extendee ← typeName "extended type name"
  let decl ← body "after extended type name" (closingOf "extend block for" extendee.text)
    extendStatement ⟨extendee, [], start⟩
  return { decl with span := ← spanFrom start }

/-! ## Messages -/

/-- What a statement in a message is taken for. -/
inductive MessageStatement where
  | message
  | enum
  | oneof
  | extend
  | option
  | extensions
  | reserved
  | field
deriving DecidableEq, Repr

/-- What the statement at a cursor in a message is taken for. -/
def classify (c : Cursor) : MessageStatement :=
  match c.current.kind with
  | .keyword .message => if c.startsNested then .message else .field
  | .keyword .enum => if c.startsNested then .enum else .field
  | .keyword .oneof => if c.startsNested then .oneof else .field
  | .keyword .extend => if c.startsExtend then .extend else .field
  | .keyword .option => .option
  | .keyword .extensions => if (c.peek 1).kind = .number then .extensions else .field
  | .keyword .reserved => if c.startsReserved then .reserved else .field
  | _ => .field

/-- A statement in a message, given how to read a message. -/
def messageStatement (inner : Parser Message) (decl : Message) : Parser Message := do
  match ← ask classify with
  | .message => return { decl with messages := decl.messages ++ (← attempt inner).toList }
  | .enum => return { decl with enums := decl.enums ++ (← attempt enumDecl).toList }
  | .oneof => return { decl with oneofs := decl.oneofs ++ (← attempt oneof).toList }
  | .extend =>
    return { decl with extendBlocks := decl.extendBlocks ++ (← attempt extend).toList }
  | .option => return { decl with options := decl.options ++ (← attempt optionStatement).toList }
  | .extensions =>
    let list ← extensionList
    return { decl with extensions := some (mergeExtensions decl.extensions list) }
  | .reserved => return { decl with reserved := decl.reserved ++ [← reserved] }
  | .field => return { decl with fields := decl.fields ++ (← attempt field).toList }

/-- A message without content. -/
def emptyMessage (name : Name) (span : Span) : Message :=
  { name, span, fields := [], oneofs := [], enums := [], messages := [], extendBlocks := [],
    reserved := [], extensions := none, options := [] }

/-- A message with the cursor on its keyword, given how to read the messages inside it. -/
def messageWith (inner : Parser Message) : Parser Message := do
  let start := (← take).span
  let name ← name "message name"
  let decl ← body "after message name" (closingOf "message" name.text) (messageStatement inner)
    (emptyMessage name start)
  return { decl with span := ← spanFrom start }

/-- A message, with the cursor on its keyword. -/
def message : Parser Message :=
  recursive (.name "message name") messageWith

end ProtoDecl.Schema.Parser
