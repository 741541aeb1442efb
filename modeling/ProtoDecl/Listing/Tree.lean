import ProtoDecl.Listing.Json
import ProtoDecl.Schema.Basic
import ProtoDecl.Token.Basic

/-!
# Listings of tokens and trees

Tokens and schema trees as JSON values.  A node is a record of its parts in a fixed order, its span
last; where a part may be of several kinds, its record begins with a member that names the kind.
-/

namespace ProtoDecl.Listing

open Schema

/-- A span. -/
def ofSpan (s : Span) : Json :=
  .record [("line", .whole s.line), ("column", .whole s.column), ("start", .whole s.start),
    ("end", .whole s.stop)]

/-- A token. -/
def ofToken (t : Token) : Json :=
  .record [("kind", .text t.kind.label), ("value", .text t.value), ("position", ofSpan t.span)]

/-! ## Names and literals -/

/-- A name's members. -/
def nameMembers (n : Name) : List (String × Json) :=
  [("name", .text n.text), ("position", ofSpan n.span)]

/-- A name. -/
def ofName (n : Name) : Json :=
  .record (nameMembers n)

/-- A string literal's members. -/
def textMembers (t : TextLit) : List (String × Json) :=
  [("value", .text t.value), ("position", ofSpan t.span)]

/-- A string literal. -/
def ofText (t : TextLit) : Json :=
  .record (textMembers t)

/-- A number literal's members. -/
def numberMembers (n : NumberLit) : List (String × Json) :=
  [("value", .real n.value), ("raw", .text n.raw), ("position", ofSpan n.span)]

/-- A number literal. -/
def ofNumber (n : NumberLit) : Json :=
  .record (numberMembers n)

/-- A record that begins with the name of its kind. -/
def tagged (kind : String) (members : List (String × Json)) : Json :=
  .record (("kind", .text kind) :: members)

/-- The value of an option. -/
def ofConstant : Constant → Json
  | .text literal => tagged "String" (textMembers literal)
  | .number literal => tagged "Number" (numberMembers literal)
  | .flag literal =>
    tagged "Boolean" [("value", .bool literal.value), ("position", ofSpan literal.span)]

/-! ## Parts of declarations -/

/-- An option. -/
def ofOptionDecl (o : OptionDecl) : Json :=
  .record [("name", ofName o.name), ("value", .ofOption ofConstant o.value),
    ("position", ofSpan o.span)]

/-- The end of a range. -/
def ofRangeEnd : RangeEnd → Json
  | .number literal => tagged "Number" (numberMembers literal)
  | .max word => tagged "Max" (nameMembers word)

/-- A range's members. -/
def rangeMembers (r : NumberRange) : List (String × Json) :=
  [("start", ofNumber r.first), ("end", ofRangeEnd r.last), ("position", ofSpan r.span)]

/-- An item of a reserved list. -/
def ofReservedItem : ReservedItem → Json
  | .number literal => tagged "Number" (numberMembers literal)
  | .name literal => tagged "Name" (textMembers literal)
  | .range range => tagged "Range" (rangeMembers range)

/-- A reserved list. -/
def ofReserved (r : Reserved) : Json :=
  .record [("items", .ofList ofReservedItem r.items), ("position", ofSpan r.span)]

/-- An item of an extension list. -/
def ofExtensionRange : ExtensionRange → Json
  | .number literal => tagged "Number" (numberMembers literal)
  | .range range => tagged "Range" (rangeMembers range)

/-- The extension lists of a message. -/
def ofExtensions (e : Extensions) : Json :=
  .record [("ranges", .ofList ofExtensionRange e.ranges),
    ("options", .ofList ofOptionDecl e.options), ("position", ofSpan e.span)]

/-- The word for a label. -/
def labelWord : Label → String
  | .optional => "optional"
  | .required => "required"
  | .repeated => "repeated"

/-- A label. -/
def ofFieldLabel (l : FieldLabel) : Json :=
  .record [("label", .text (labelWord l.label)), ("position", ofSpan l.span)]

mutual

/-- A type. -/
def ofFieldType : FieldType → Json
  | ⟨name, arguments, span⟩ =>
    .record [("name", ofName name), ("arguments", .list (ofFieldTypes arguments)),
      ("position", ofSpan span)]

/-- The arguments of a type. -/
def ofFieldTypes : List FieldType → List Json
  | [] => []
  | type :: rest => ofFieldType type :: ofFieldTypes rest

end

/-! ## Declarations -/

/-- A field. -/
def ofField (f : Field) : Json :=
  .record [("label", .ofOption ofFieldLabel f.label), ("field_type", ofFieldType f.type),
    ("name", ofName f.name), ("number", ofNumber f.number),
    ("options", .ofList ofOptionDecl f.options), ("position", ofSpan f.span)]

/-- A group of alternatives. -/
def ofOneof (o : Oneof) : Json :=
  .record [("name", ofName o.name), ("fields", .ofList ofField o.fields),
    ("options", .ofList ofOptionDecl o.options), ("position", ofSpan o.span)]

/-- An entry of an enum. -/
def ofEnumValue (v : EnumValue) : Json :=
  .record [("name", ofName v.name), ("value", ofNumber v.number),
    ("options", .ofList ofOptionDecl v.options), ("position", ofSpan v.span)]

/-- An enum. -/
def ofEnumDecl (e : EnumDecl) : Json :=
  .record [("name", ofName e.name), ("values", .ofList ofEnumValue e.values),
    ("options", .ofList ofOptionDecl e.options), ("reserved", .ofList ofReserved e.reserved),
    ("position", ofSpan e.span)]

/-- A block that extends a message. -/
def ofExtend (e : Extend) : Json :=
  .record [("extendee", ofName e.extendee), ("fields", .ofList ofField e.fields),
    ("position", ofSpan e.span)]

mutual

/-- A message. -/
def ofMessage : Message → Json
  | ⟨name, fields, oneofs, enums, messages, extendBlocks, reserved, extensions, options, span⟩ =>
    .record [("name", ofName name), ("fields", .ofList ofField fields),
      ("oneofs", .ofList ofOneof oneofs), ("enums", .ofList ofEnumDecl enums),
      ("messages", .list (ofMessages messages)), ("extends", .ofList ofExtend extendBlocks),
      ("reserved", .ofList ofReserved reserved),
      ("extensions", .ofOption ofExtensions extensions),
      ("options", .ofList ofOptionDecl options), ("position", ofSpan span)]

/-- The messages inside a message. -/
def ofMessages : List Message → List Json
  | [] => []
  | message :: rest => ofMessage message :: ofMessages rest

end

/-- A method. -/
def ofMethod (m : Method) : Json :=
  .record [("name", ofName m.name), ("request_type", ofName m.request),
    ("request_stream", .bool m.requestStream), ("response_type", ofName m.response),
    ("response_stream", .bool m.responseStream), ("options", .ofList ofOptionDecl m.options),
    ("position", ofSpan m.span)]

/-- A service. -/
def ofService (s : Service) : Json :=
  .record [("name", ofName s.name), ("methods", .ofList ofMethod s.methods),
    ("options", .ofList ofOptionDecl s.options), ("position", ofSpan s.span)]

/-! ## Files -/

/-- The word for a modifier. -/
def modifierWord : ImportModifier → String
  | .weak => "weak"
  | .publicly => "public"

/-- An import. -/
def ofImport (i : Import) : Json :=
  .record [("path", ofText i.path),
    ("modifier", .ofOption (fun m => .text (modifierWord m)) i.modifier),
    ("position", ofSpan i.span)]

/-- A package statement. -/
def ofPackage (p : Package) : Json :=
  .record [("name", ofName p.name), ("position", ofSpan p.span)]

/-- The statement that names the version. -/
def ofEdition (e : Edition) : Json :=
  .record [("version", ofText e.version), ("position", ofSpan e.span)]

/-- A file. -/
def ofFile (f : File) : Json :=
  .record [("syntax", .ofOption ofEdition f.edition), ("package", .ofOption ofPackage f.package),
    ("imports", .ofList ofImport f.imports), ("options", .ofList ofOptionDecl f.options),
    ("enums", .ofList ofEnumDecl f.enums), ("messages", .ofList ofMessage f.messages),
    ("services", .ofList ofService f.services), ("extends", .ofList ofExtend f.extendBlocks),
    ("position", ofSpan f.span)]

end ProtoDecl.Listing
