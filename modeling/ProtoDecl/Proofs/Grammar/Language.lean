import ProtoDecl.Proofs.Grammar.Rule

/-!
# The language of schemas

The grammar of schema files, with the tree of every derivation.  Trees have no places here: every
span is `nowhere`.

Keywords are names too, so some words would derive in two ways.  Three conditions decide:

* a field without a label does not begin with the keyword of one (`field`);
* a type without the mark `stream` does not begin with that word and a dot (`unmarkedType`);
* fields in messages and groups, and the entries of enums, do not begin with the word `option`
  (`memberField`, `enumItem`).

A body is a list of items in the order of the text.  The tree of the declaration sorts them, keeping
that order (`EnumDecl.ofItems`, `Message.ofItems` and so on).
-/

namespace ProtoDecl.Schema.Grammar

open Rule
open ProtoDecl.Schema.Parser (NumberOrRange)

/-! ## Names and literals -/

/-- A name is an identifier or a keyword. -/
def name : Rule Name := do
  let t ← terminal (·.isName = true)
  return ⟨t.value, nowhere⟩

/-- A further segment of a dotted name. -/
def segment : Rule Name := do
  let _ ← symbol .dot
  name

/-- The further segments of a dotted name, and the whole name if it begins with `text`. -/
def segments (text : String) : Rule String :=
  (fun rest => ".".intercalate (text :: rest.map Name.text)) <$> many segment

/-- Names with dots between. -/
def dottedName : Rule Name := do
  let first ← name
  let text ← segments first.text
  return ⟨text, nowhere⟩

/-- A dotted name that may have a leading dot. -/
def typeName : Rule Name :=
  dottedName <|> do
    let _ ← symbol .dot
    let first ← name
    let text ← segments ("." ++ first.text)
    return ⟨text, nowhere⟩

def text : Rule TextLit :=
  (fun t => ⟨t.value, nowhere⟩) <$> token .text

def number : Rule NumberLit :=
  (fun t => ⟨t.value, nowhere⟩) <$> token .number

/-- A word in small letters, which is how a keyword becomes a name. -/
def lowered (word : String) : String :=
  String.ofList (word.toList.map Char.toLower)

/-- A number that denotes an integer of 64 bits. -/
def integer : Rule NumberLit :=
  number.satisfying (·.integer?.isSome = true)

/-! ## Options -/

/-- A dotted name, or the name of an extension in parentheses and further segments. -/
def optionName : Rule Name :=
  dottedName <|> do
    let _ ← symbol .openParen
    let extension ← typeName
    let _ ← symbol .closeParen
    let text ← segments ("(" ++ extension.text ++ ")")
    return ⟨text, nowhere⟩

def constant : Rule Constant :=
  Constant.text <$> text
    <|> Constant.number <$> number
    <|> (fun _ => Constant.flag ⟨true, nowhere⟩) <$> keyword .trueWord
    <|> (fun _ => Constant.flag ⟨false, nowhere⟩) <$> keyword .falseWord

def assignment : Rule OptionDecl := do
  let name ← optionName
  let _ ← symbol .equals
  let value ← some <$> constant
  return ⟨name, value, nowhere⟩

def optionStatement : Rule OptionDecl := do
  let _ ← keyword .option
  let option ← assignment
  let _ ← symbol .semicolon
  return option

/-- What stands between the brackets of a list of options: nothing, or options with commas between
and perhaps one at the end. -/
def optionEntries : Rule (List OptionDecl) :=
  pure []
    <|> separated assignment
    <|> do
      let entries ← separated assignment
      let _ ← symbol .comma
      return entries

/-- A list of options behind its opening bracket. -/
def optionTail : Rule (List OptionDecl) := do
  let entries ← optionEntries
  let _ ← symbol .closeBracket
  return entries

def optionList : Rule (List OptionDecl) := do
  let _ ← symbol .openBracket
  optionTail

/-- A list of options, or nothing. -/
def options : Rule (List OptionDecl) :=
  optionList <|> pure []

/-! ## Lists of numbers -/

def rangeEnd : Rule RangeEnd :=
  RangeEnd.number <$> number
    <|> (fun t => RangeEnd.max ⟨lowered t.value, nowhere⟩) <$> keyword .max

/-- A number, or a range. -/
def numberOrRange : Rule NumberOrRange :=
  NumberOrRange.number <$> number <|> do
    let first ← number
    let _ ← keyword .upTo
    let last ← rangeEnd
    return .range ⟨first, last, nowhere⟩

/-- A number or a range as an item of a reserved list. -/
def reservedNumber : NumberOrRange → ReservedItem
  | .number n => .number n
  | .range r => .range r

def reservedItem : Rule ReservedItem :=
  ReservedItem.name <$> text <|> reservedNumber <$> numberOrRange

def reserved : Rule Reserved := do
  let _ ← keyword .reserved
  let items ← separated reservedItem
  let _ ← symbol .semicolon
  return ⟨items, nowhere⟩

/-- A number or a range as an item of an extension list. -/
def extensionNumber : NumberOrRange → ExtensionRange
  | .number n => .number n
  | .range r => .range r

/-- An item of an extension list, with the options behind it. -/
def extensionItem : Rule (ExtensionRange × List OptionDecl) := do
  let range ← extensionNumber <$> numberOrRange
  let lists ← many optionList
  return (range, lists.flatten)

def extensionList : Rule Extensions := do
  let _ ← keyword .extensions
  let items ← separated extensionItem
  let _ ← symbol .semicolon
  return ⟨items.map Prod.fst, items.flatMap Prod.snd, nowhere⟩

/-! ## Fields -/

def fieldTypeWith (inner : Rule FieldType) : Rule FieldType :=
  (do
    let word ← keyword .map
    let _ ← symbol .openAngle
    let key ← inner
    let _ ← symbol .comma
    let value ← inner
    let _ ← symbol .closeAngle
    return ⟨⟨lowered word.value, nowhere⟩, [key, value], nowhere⟩)
    <|> (fun n => ⟨n, [], nowhere⟩) <$> typeName

def fieldType : Rule FieldType :=
  nested fieldTypeWith

def fieldLabel : Rule FieldLabel :=
  (fun _ => ⟨.optional, nowhere⟩) <$> keyword .optional
    <|> (fun _ => ⟨.required, nowhere⟩) <$> keyword .required
    <|> (fun _ => ⟨.repeated, nowhere⟩) <$> keyword .repeated

/-- A field from its type on. -/
def labelledField (label : Option FieldLabel) : Rule Field := do
  let type ← fieldType
  let name ← name
  let _ ← symbol .equals
  let number ← integer
  let options ← options
  let _ ← symbol .semicolon
  return ⟨label, type, name, number, options, nowhere⟩

def field : Rule Field :=
  (do
    let label ← fieldLabel
    labelledField (some label))
    <|> (labelledField none).notAt fun k => (Parser.labelOf? k).isSome = true

/-- A field where options may stand too. -/
def memberField : Rule Field :=
  field.notAt (· = .keyword .option)

/-! ## Bodies -/

/-- Items and lone semicolons between braces. -/
def body {ι : Type} (item : Rule ι) : Rule (List ι) := do
  let _ ← symbol .openBrace
  let items ← many (some <$> item <|> (fun _ => none) <$> symbol .semicolon)
  let _ ← symbol .closeBrace
  return items.filterMap id

/-! ## Enums -/

def enumValue : Rule EnumValue := do
  let name ← name
  let _ ← symbol .equals
  let number ← integer
  let options ← options
  let _ ← symbol .semicolon
  return ⟨name, number, options, nowhere⟩

inductive EnumItem where
  | option (decl : OptionDecl)
  | reserved (list : Reserved)
  | value (value : EnumValue)

def enumItem : Rule EnumItem :=
  EnumItem.option <$> optionStatement
    <|> EnumItem.reserved <$> reserved
    <|> EnumItem.value <$> enumValue.notAt (· = .keyword .option)

def EnumDecl.ofItems (name : Name) (items : List EnumItem) : EnumDecl where
  name
  values := items.filterMap fun | .value v => some v | _ => none
  options := items.filterMap fun | .option o => some o | _ => none
  reserved := items.filterMap fun | .reserved r => some r | _ => none
  span := nowhere

def enumDecl : Rule EnumDecl := do
  let _ ← keyword .enum
  let name ← name
  let items ← body enumItem
  return EnumDecl.ofItems name items

/-! ## Messages -/

inductive OneofItem where
  | option (decl : OptionDecl)
  | field (field : Field)

def oneofItem : Rule OneofItem :=
  OneofItem.option <$> optionStatement <|> OneofItem.field <$> memberField

def Oneof.ofItems (name : Name) (items : List OneofItem) : Oneof where
  name
  fields := items.filterMap fun | .field f => some f | _ => none
  options := items.filterMap fun | .option o => some o | _ => none
  span := nowhere

def oneof : Rule Oneof := do
  let _ ← keyword .oneof
  let name ← name
  let items ← body oneofItem
  return Oneof.ofItems name items

def extend : Rule Extend := do
  let _ ← keyword .extend
  let extendee ← typeName
  let fields ← body field
  return ⟨extendee, fields, nowhere⟩

inductive MessageItem where
  | message (decl : Message)
  | enum (decl : EnumDecl)
  | oneof (decl : Oneof)
  | extend (decl : Extend)
  | option (decl : OptionDecl)
  | extensions (list : Extensions)
  | reserved (list : Reserved)
  | field (field : Field)

def messageItem (inner : Rule Message) : Rule MessageItem :=
  MessageItem.message <$> inner
    <|> MessageItem.enum <$> enumDecl
    <|> MessageItem.oneof <$> oneof
    <|> MessageItem.extend <$> extend
    <|> MessageItem.option <$> optionStatement
    <|> MessageItem.extensions <$> extensionList
    <|> MessageItem.reserved <$> reserved
    <|> MessageItem.field <$> memberField

/-- All extension lists of a message as one, if there are any. -/
def gather : List Extensions → Option Extensions
  | [] => none
  | lists => some ⟨lists.flatMap Extensions.ranges, lists.flatMap Extensions.options, nowhere⟩

def Message.ofItems (name : Name) (items : List MessageItem) : Message where
  name
  fields := items.filterMap fun | .field f => some f | _ => none
  oneofs := items.filterMap fun | .oneof o => some o | _ => none
  enums := items.filterMap fun | .enum e => some e | _ => none
  messages := items.filterMap fun | .message m => some m | _ => none
  extendBlocks := items.filterMap fun | .extend e => some e | _ => none
  reserved := items.filterMap fun | .reserved r => some r | _ => none
  extensions := gather (items.filterMap fun | .extensions e => some e | _ => none)
  options := items.filterMap fun | .option o => some o | _ => none
  span := nowhere

def messageWith (inner : Rule Message) : Rule Message := do
  let _ ← keyword .message
  let name ← name
  let items ← body (messageItem inner)
  return Message.ofItems name items

def message : Rule Message :=
  nested messageWith

/-! ## Services -/

/-- A type that is not marked as a stream.  The word `stream` may be its whole name, but not the
first of several segments. -/
def unmarkedType : Rule Name :=
  fun w n => typeName w n ∧ ∀ t u v, w = t :: u :: v → t.kind ≠ .keyword .stream

/-- The type of a request or a response, and whether it is a stream. -/
def methodType : Rule (Bool × Name) := do
  let _ ← symbol .openParen
  let type ←
    (do
      let _ ← keyword .stream
      let n ← typeName
      return (true, n))
      <|> (fun n => (false, n)) <$> unmarkedType
  let _ ← symbol .closeParen
  return type

/-- The options of a method, or the semicolon in their place. -/
def methodEnd : Rule (List OptionDecl) :=
  (fun _ => []) <$> symbol .semicolon <|> body optionStatement

def method : Rule Method := do
  let _ ← keyword .rpc
  let name ← name
  let request ← methodType
  let _ ← keyword .returns
  let response ← methodType
  let options ← methodEnd
  return ⟨name, request.2, request.1, response.2, response.1, options, nowhere⟩

inductive ServiceItem where
  | option (decl : OptionDecl)
  | method (method : Method)

def serviceItem : Rule ServiceItem :=
  ServiceItem.option <$> optionStatement <|> ServiceItem.method <$> method

def Service.ofItems (name : Name) (items : List ServiceItem) : Service where
  name
  methods := items.filterMap fun | .method m => some m | _ => none
  options := items.filterMap fun | .option o => some o | _ => none
  span := nowhere

def service : Rule Service := do
  let _ ← keyword .service
  let name ← name
  let items ← body serviceItem
  return Service.ofItems name items

/-! ## Files -/

def edition : Rule Edition := do
  let _ ← keyword .syntaxWord
  let _ ← symbol .equals
  let version ← text
  let _ ← symbol .semicolon
  return ⟨version, nowhere⟩

def package : Rule Package := do
  let _ ← keyword .package
  let name ← dottedName
  let _ ← symbol .semicolon
  return ⟨name, nowhere⟩

def importModifier : Rule (Option ImportModifier) :=
  (fun _ => some .weak) <$> keyword .weak
    <|> (fun _ => some .publicly) <$> keyword .publicWord
    <|> pure none

def importStatement : Rule Import := do
  let _ ← keyword .importWord
  let modifier ← importModifier
  let path ← text
  let _ ← symbol .semicolon
  return ⟨path, modifier, nowhere⟩

inductive FileItem where
  | empty
  | edition (decl : Edition)
  | package (decl : Package)
  | importItem (decl : Import)
  | option (decl : OptionDecl)
  | enum (decl : EnumDecl)
  | message (decl : Message)
  | service (decl : Service)
  | extend (decl : Extend)

def fileItem : Rule FileItem :=
  (fun _ => FileItem.empty) <$> symbol .semicolon
    <|> FileItem.edition <$> edition
    <|> FileItem.package <$> package
    <|> FileItem.importItem <$> importStatement
    <|> FileItem.option <$> optionStatement
    <|> FileItem.enum <$> enumDecl
    <|> FileItem.message <$> message
    <|> FileItem.service <$> service
    <|> FileItem.extend <$> extend

/-- The statements that name the version. -/
def editions (items : List FileItem) : List Edition :=
  items.filterMap fun | .edition e => some e | _ => none

/-- The package statements. -/
def packages (items : List FileItem) : List Package :=
  items.filterMap fun | .package p => some p | _ => none

def File.ofItems (items : List FileItem) : File where
  edition := (editions items).head?
  package := (packages items).head?
  imports := items.filterMap fun | .importItem i => some i | _ => none
  options := items.filterMap fun | .option o => some o | _ => none
  enums := items.filterMap fun | .enum e => some e | _ => none
  messages := items.filterMap fun | .message m => some m | _ => none
  services := items.filterMap fun | .service s => some s | _ => none
  extendBlocks := items.filterMap fun | .extend e => some e | _ => none
  span := nowhere

/-- A file: statements, of which only the first may name the version, and with at most one
package. -/
def file : Rule File :=
  File.ofItems <$> (many fileItem).satisfying fun items =>
    editions items.tail = [] ∧ (packages items).length ≤ 1

end ProtoDecl.Schema.Grammar
