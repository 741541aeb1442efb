import ProtoDecl.Number.Double
import ProtoDecl.Span

/-!
# Schemas

The tree of a schema file.  Every node records the span of text it was read from and owns its parts.

* literals and names: `Name`, `TextLit`, `NumberLit`, `FlagLit`, `Constant`;
* parts of declarations: `OptionDecl`, `NumberRange`, `Reserved`, `Extensions`, `FieldLabel`,
  `FieldType`;
* declarations: `Field`, `Oneof`, `EnumValue`, `EnumDecl`, `Extend`, `Message`, `Method`, `Service`;
* the file: `Import`, `Package`, `Edition`, `File`.

Trees of faulty files are kept too, so the types do not promise what only a correct file has: an
option may lack its value, and a list may be empty.
-/

namespace ProtoDecl.Schema

/-! ## Names and literals -/

/-- A plain or dotted name, such as `Foo`, `.google.protobuf.Any` or `(my.ext).field`. -/
structure Name where
  text : String
  span : Span
deriving DecidableEq, Repr

/-- A string literal, with its decoded content. -/
structure TextLit where
  value : String
  span : Span
deriving DecidableEq, Repr

/-- A number literal, kept as it was written. -/
structure NumberLit where
  raw : String
  span : Span
deriving DecidableEq, Repr

/-- The literal as an integer, if it denotes one that fits in 64 bits. -/
def NumberLit.integer? (n : NumberLit) : Option Int :=
  Number.integer? n.raw.toList

/-- The double nearest to the literal; text that is no number denotes none. -/
def NumberLit.value (n : NumberLit) : Number.Double :=
  (Number.Double.ofText? n.raw.toList).getD .nan

/-- A literal `true` or `false`. -/
structure FlagLit where
  value : Bool
  span : Span
deriving DecidableEq, Repr

/-- The value of an option. -/
inductive Constant where
  | text (literal : TextLit)
  | number (literal : NumberLit)
  | flag (literal : FlagLit)
deriving DecidableEq, Repr

/-- Where a constant stands. -/
def Constant.span : Constant → Span
  | text literal => literal.span
  | number literal => literal.span
  | flag literal => literal.span

/-! ## Parts of declarations -/

/-- An option: a statement `option name = value;` or one entry of a bracketed list.  The value is
missing when something other than a constant was written. -/
structure OptionDecl where
  name : Name
  value : Option Constant
  span : Span
deriving DecidableEq, Repr

/-- Where a range of numbers ends. -/
inductive RangeEnd where
  | number (literal : NumberLit)
  /-- The word `max`. -/
  | max (word : Name)
deriving DecidableEq, Repr

/-- A range `first to last` of numbers. -/
structure NumberRange where
  first : NumberLit
  last : RangeEnd
  span : Span
deriving DecidableEq, Repr

/-- An item of a reserved list. -/
inductive ReservedItem where
  | number (literal : NumberLit)
  | name (literal : TextLit)
  | range (range : NumberRange)
deriving DecidableEq, Repr

/-- A statement `reserved 2, 9 to 11, "foo";`. -/
structure Reserved where
  items : List ReservedItem
  span : Span
deriving DecidableEq, Repr

/-- An item of an extension list. -/
inductive ExtensionRange where
  | number (literal : NumberLit)
  | range (range : NumberRange)
deriving DecidableEq, Repr

/-- All statements `extensions 100 to 199;` of one message together. -/
structure Extensions where
  ranges : List ExtensionRange
  options : List OptionDecl
  span : Span
deriving DecidableEq, Repr

/-- How often a field may occur. -/
inductive Label where
  | optional
  | required
  | repeated
deriving DecidableEq, Repr

/-- A label with its place. -/
structure FieldLabel where
  label : Label
  span : Span
deriving DecidableEq, Repr

/-- The type of a field: a name, with arguments if it is written `map<K, V>`. -/
structure FieldType where
  name : Name
  arguments : List FieldType
  span : Span
deriving Repr

/-- Whether the type is a map with arguments. -/
def FieldType.isMap (t : FieldType) : Bool :=
  t.name.text == "map" && !t.arguments.isEmpty

/-! ## Declarations -/

/-- A field `label type name = number [options];`. -/
structure Field where
  label : Option FieldLabel
  type : FieldType
  name : Name
  number : NumberLit
  options : List OptionDecl
  span : Span
deriving Repr

namespace Field

/-- The label without its place. -/
def label? (f : Field) : Option Label :=
  f.label.map FieldLabel.label

/-- The value of the first option with the given name. -/
def option? (f : Field) (name : String) : Option Constant :=
  (f.options.find? fun o => o.name.text == name).bind OptionDecl.value

end Field

/-- A group of fields of which at most one is set. -/
structure Oneof where
  name : Name
  fields : List Field
  options : List OptionDecl
  span : Span
deriving Repr

/-- An entry `NAME = number [options];` of an enum. -/
structure EnumValue where
  name : Name
  number : NumberLit
  options : List OptionDecl
  span : Span
deriving DecidableEq, Repr

/-- An enum. -/
structure EnumDecl where
  name : Name
  values : List EnumValue
  options : List OptionDecl
  reserved : List Reserved
  span : Span
deriving DecidableEq, Repr

/-- A block of fields added to another message. -/
structure Extend where
  extendee : Name
  fields : List Field
  span : Span
deriving Repr

/-- A message. -/
structure Message where
  name : Name
  fields : List Field
  oneofs : List Oneof
  enums : List EnumDecl
  messages : List Message
  extendBlocks : List Extend
  reserved : List Reserved
  extensions : Option Extensions
  options : List OptionDecl
  span : Span
deriving Repr

/-- Whether the message declares anything that lives in its own scope. -/
def Message.hasNested (m : Message) : Bool :=
  !m.enums.isEmpty || !m.messages.isEmpty || !m.extendBlocks.isEmpty

/-- A method of a service. -/
structure Method where
  name : Name
  request : Name
  requestStream : Bool
  response : Name
  responseStream : Bool
  options : List OptionDecl
  span : Span
deriving DecidableEq, Repr

/-- A service. -/
structure Service where
  name : Name
  methods : List Method
  options : List OptionDecl
  span : Span
deriving DecidableEq, Repr

/-! ## Files -/

/-- How an import passes on or needs its file. -/
inductive ImportModifier where
  | weak
  | publicly
deriving DecidableEq, Repr

/-- An import statement. -/
structure Import where
  path : TextLit
  modifier : Option ImportModifier
  span : Span
deriving DecidableEq, Repr

/-- A package statement. -/
structure Package where
  name : Name
  span : Span
deriving DecidableEq, Repr

/-- The statement that names the version of the language. -/
structure Edition where
  version : TextLit
  span : Span
deriving DecidableEq, Repr

/-- A schema file. -/
structure File where
  edition : Option Edition := none
  package : Option Package := none
  imports : List Import := []
  options : List OptionDecl := []
  enums : List EnumDecl := []
  messages : List Message := []
  services : List Service := []
  extendBlocks : List Extend := []
  span : Span := ⟨0, 0, 0, 0⟩
deriving Repr

end ProtoDecl.Schema
