import ProtoDecl.Scalar

/-!
# Descriptors

The form in which other tools of the schema language exchange schemas.  A descriptor holds what a
file declares, without places in the text; type names stand as they were written.

Numbers are 32-bit words.  An index is a place in a list of the same descriptor.
-/

namespace ProtoDecl.Descriptor

/-- A range of numbers.  Whether the last one belongs to it depends on where it stands. -/
structure NumberSpan where
  first : Int32
  last : Int32
deriving DecidableEq

/-- How often a field occurs. -/
inductive Cardinality where
  | optional
  | required
  | repeated
deriving DecidableEq, Repr

/-- The number that stands for a cardinality. -/
def Cardinality.code : Cardinality → Nat
  | optional => 1
  | required => 2
  | repeated => 3

/-- The type of a field, as far as it is known without resolving names. -/
inductive TypeCode where
  | scalar (type : Scalar)
  | message
deriving DecidableEq, Repr

/-- The number that stands for a type. -/
def TypeCode.code : TypeCode → Nat
  | scalar .double => 1
  | scalar .float => 2
  | scalar .int64 => 3
  | scalar .uint64 => 4
  | scalar .int32 => 5
  | scalar .fixed64 => 6
  | scalar .fixed32 => 7
  | scalar .bool => 8
  | scalar .string => 9
  | message => 11
  | scalar .bytes => 12
  | scalar .uint32 => 13
  | scalar .sfixed32 => 15
  | scalar .sfixed64 => 16
  | scalar .sint32 => 17
  | scalar .sint64 => 18

/-- The options of a field that a descriptor records. -/
structure FieldOptions where
  packed : Option Bool
  deprecated : Option Bool
deriving DecidableEq, Repr

/-- A field. -/
structure FieldDescriptor where
  name : String
  /-- The extended message, for a field of an extension. -/
  extendee : Option String := none
  number : Int32
  label : Cardinality
  type : Option TypeCode := none
  typeName : Option String := none
  defaultValue : Option String := none
  options : Option FieldOptions := none
  /-- The place of the group that the field belongs to.  Places are plain numbers here, and become
  words of 32 bits when they are written (`Wire.index`); there they wrap beyond 2³¹ groups. -/
  oneofIndex : Option Nat := none
  jsonName : Option String := none
  /-- Whether the field records its presence through a group of its own. -/
  tracksPresence : Bool := false
deriving DecidableEq

/-- An entry of an enum. -/
structure EnumValueDescriptor where
  name : String
  number : Int32
deriving DecidableEq

/-- An enum.  Its reserved ranges include both ends. -/
structure EnumDescriptor where
  name : String
  values : List EnumValueDescriptor
  reservedRanges : List NumberSpan
  reservedNames : List String
deriving DecidableEq

/-- A message.  Its ranges exclude their last number. -/
structure MessageDescriptor where
  name : String
  fields : List FieldDescriptor
  nested : List MessageDescriptor := []
  enums : List EnumDescriptor := []
  extensionRanges : List NumberSpan := []
  extensions : List FieldDescriptor := []
  /-- Whether the message stands for an entry of a map. -/
  isMapEntry : Bool := false
  /-- The names of the groups of alternatives. -/
  oneofs : List String := []
  reservedRanges : List NumberSpan := []
  reservedNames : List String := []

/-- A method of a service. -/
structure MethodDescriptor where
  name : String
  inputType : String
  outputType : String
  clientStreaming : Bool
  serverStreaming : Bool
deriving DecidableEq

/-- A service. -/
structure ServiceDescriptor where
  name : String
  methods : List MethodDescriptor
deriving DecidableEq

/-- A file. -/
structure FileDescriptor where
  name : String
  package : Option String
  dependencies : List String
  messages : List MessageDescriptor
  enums : List EnumDescriptor
  services : List ServiceDescriptor
  extensions : List FieldDescriptor
  /-- Which of the dependencies are passed on, by their places. -/
  publicDependencies : List Nat
  /-- Which of the dependencies may be missing, by their places. -/
  weakDependencies : List Nat
  edition : Option String

end ProtoDecl.Descriptor
