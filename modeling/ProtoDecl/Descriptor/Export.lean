import ProtoDecl.Descriptor.Basic
import ProtoDecl.Schema.Basic
import ProtoDecl.Text.Casing

/-!
# Descriptor of a schema

`ofFile` makes the descriptor of a schema file, of a faulty one too.

* Numbers are cut to 32 bits; a literal that is no integer counts as zero.
* A field written as a map refers to a message of its own, which stands for an entry of the map and
  is declared before all other messages of the scope.
* Under version 3 of the language, a field labelled optional records its presence through a group of
  alternatives made for it alone.  These groups come after the declared ones.
-/

namespace ProtoDecl.Descriptor

open Schema

/-! ## Numbers -/

/-- The nearest number in the range of 32-bit words. -/
def clamp (value : Int) : Int :=
  max (-0x80000000) (min value 0x7FFFFFFF)

/-- The nearest 32-bit word. -/
def word (value : Int) : Int32 :=
  Int32.ofInt (clamp value)

theorem clamp_mem (value : Int) : -0x80000000 ≤ clamp value ∧ clamp value < 0x80000000 := by
  unfold clamp
  omega

@[simp] theorem toInt_word (value : Int) : (word value).toInt = clamp value := by
  obtain ⟨low, high⟩ := clamp_mem value
  exact Int32.toInt_ofInt_of_le low high

/-- A literal as a 32-bit word. -/
def ofNumber (n : NumberLit) : Int32 :=
  match n.integer? with
  | some value => word value
  | none => 0

/-- The number behind a word; there is none behind the greatest. -/
def successor (n : Int32) : Int32 :=
  word (n.toInt + 1)

/-- The first number that is too great for a field. -/
def fieldNumberLimit : Int32 :=
  536870912

/-- The number behind the end of a range in a message. -/
def behindEnd : RangeEnd → Int32
  | .number n => successor (ofNumber n)
  | .max _ => fieldNumberLimit

/-- A single number as a range in a message. -/
def singleton (n : NumberLit) : NumberSpan :=
  ⟨ofNumber n, successor (ofNumber n)⟩

/-- A range in a message, which excludes its last number. -/
def ofRange (r : NumberRange) : NumberSpan :=
  ⟨ofNumber r.first, behindEnd r.last⟩

/-- A range in an enum, which includes its last number. -/
def ofEnumRange (r : NumberRange) : NumberSpan :=
  let last := match r.last with
    | .number n => ofNumber n
    | .max _ => word 0x7FFFFFFF
  ⟨ofNumber r.first, last⟩

/-! ## Fields -/

/-- The value of an option that is `true` or `false`. -/
def flagOption (f : Field) (name : String) : Option Bool :=
  match f.option? name with
  | some (.flag literal) => some literal.value
  | _ => none

/-- The value of an option that is a string. -/
def textOption (f : Field) (name : String) : Option String :=
  match f.option? name with
  | some (.text literal) => some literal.value
  | _ => none

/-- The options of a field, if it has any that are recorded. -/
def fieldOptions (f : Field) : Option FieldOptions :=
  let deprecated := flagOption f "deprecated"
  let packed := flagOption f "packed"
  if deprecated.isNone && packed.isNone then none else some { packed, deprecated }

/-- A constant as the text of a default value. -/
def constantText : Constant → String
  | .text literal => literal.value
  | .number literal => literal.raw
  | .flag literal => if literal.value then "true" else "false"

/-- How often a field with the given label occurs. -/
def cardinality : Option Label → Cardinality
  | some .repeated => .repeated
  | some .required => .required
  | some .optional => .optional
  | none => .optional

/-- The code of a scalar type given by its name. -/
def scalarCode? (name : String) : Option TypeCode :=
  (Scalar.ofName? name).map .scalar

/-- The name of a type that is no scalar. -/
def typeName? (name : String) : Option String :=
  if (Scalar.ofName? name).isSome then none else some name

/-- A name in capitalised words without underscores.  The flag says whether a word begins here. -/
def pascal (startsWord : Bool) : List Char → List Char
  | [] => []
  | c :: rest =>
    if c = '_' then pascal true rest
    else if startsWord then Text.toUpper c ++ pascal false rest
    else c :: pascal false rest

/-- The name of the message that stands for an entry of a map. -/
def entryName (f : Field) : String :=
  String.ofList (pascal true f.name.text.toList) ++ "Entry"

/-- A field of an entry of a map. -/
def entryField (name : String) (number : Int32) (type : FieldType) : FieldDescriptor where
  name := name
  number := number
  label := .optional
  type := scalarCode? type.name.text
  typeName := typeName? type.name.text

/-- The message that stands for an entry of a map. -/
def mapEntry (f : Field) : MessageDescriptor where
  name := entryName f
  fields := List.zipWith (fun entry type => entryField entry.1 entry.2 type)
    [("key", 1), ("value", 2)] f.type.arguments
  isMapEntry := true

/-- The message for the entries of a field that is a map. -/
def entryOf? (f : Field) : Option MessageDescriptor :=
  if f.type.isMap then some (mapEntry f) else none

/-- A field by itself. -/
def ofField (f : Field) : FieldDescriptor where
  name := f.name.text
  number := ofNumber f.number
  label := if f.type.isMap then .repeated else cardinality f.label?
  type := if f.type.isMap then some .message else scalarCode? f.type.name.text
  typeName := if f.type.isMap then some (entryName f) else typeName? f.type.name.text
  defaultValue := (f.option? "default").map constantText
  options := fieldOptions f
  jsonName := textOption f "json_name"

/-- The fields that an extension adds. -/
def ofExtend (e : Extend) : List FieldDescriptor :=
  e.fields.map fun f => { ofField f with extendee := some e.extendee.text }

/-! ## Groups of alternatives -/

/-- Whether a field of a message gets a group of its own. -/
def tracksPresence (version3 : Bool) (f : Field) : Bool :=
  version3 && f.label? == some .optional

/-- The name of the group that a field gets for itself: an underscore and the name of the field,
with as many X in front as keep it apart from the declared groups.  More are tried than there are
groups, so one is free. -/
def presenceName (declared : List String) (field : String) : String :=
  let candidates := (List.range (declared.length + 1)).map fun n =>
    String.ofList (List.replicate n 'X') ++ "_" ++ field
  (candidates.find? fun name => !declared.contains name).getD ("_" ++ field)

/-- The plain fields of a message.  A field with a group of its own refers to it by `index`, and the
next one by the following index. -/
def ofPlainFields (version3 : Bool) (index : Nat) : List Field → List FieldDescriptor
  | [] => []
  | f :: rest =>
    if tracksPresence version3 f then
      { ofField f with oneofIndex := some index, tracksPresence := true }
        :: ofPlainFields version3 (index + 1) rest
    else
      ofField f :: ofPlainFields version3 index rest

/-- The fields of the declared groups, each of which refers to its group. -/
def ofOneofs (index : Nat) : List Oneof → List FieldDescriptor
  | [] => []
  | o :: rest =>
    o.fields.map (fun f => { ofField f with oneofIndex := some index })
      ++ ofOneofs (index + 1) rest

/-- The names of all groups of a message. -/
def oneofNames (version3 : Bool) (m : Message) : List String :=
  let declared := m.oneofs.map fun o => o.name.text
  declared ++ (m.fields.filter (tracksPresence version3)).map fun f =>
    presenceName declared f.name.text

/-! ## Reserved numbers and names -/

/-- The items of some reserved lists. -/
def reservedItems (lists : List Reserved) : List ReservedItem :=
  lists.flatMap Reserved.items

/-- The reserved names. -/
def reservedNames (lists : List Reserved) : List String :=
  (reservedItems lists).filterMap fun
    | .name literal => some literal.value
    | _ => none

/-- The reserved numbers of a message. -/
def reservedRanges (lists : List Reserved) : List NumberSpan :=
  (reservedItems lists).filterMap fun
    | .number n => some (singleton n)
    | .range r => some (ofRange r)
    | .name _ => none

/-- The reserved numbers of an enum. -/
def enumReservedRanges (lists : List Reserved) : List NumberSpan :=
  (reservedItems lists).filterMap fun
    | .number n => some ⟨ofNumber n, ofNumber n⟩
    | .range r => some (ofEnumRange r)
    | .name _ => none

/-- The numbers that a message leaves to extensions. -/
def extensionRanges (e : Option Extensions) : List NumberSpan :=
  (e.toList.flatMap Extensions.ranges).map fun
    | .number n => singleton n
    | .range r => ofRange r

/-! ## Declarations -/

/-- An enum. -/
def ofEnum (e : EnumDecl) : EnumDescriptor where
  name := e.name.text
  values := e.values.map fun v => ⟨v.name.text, ofNumber v.number⟩
  reservedRanges := enumReservedRanges e.reserved
  reservedNames := reservedNames e.reserved

/-- All fields of a message: its own, then those of its groups. -/
def allFields (m : Message) : List Field :=
  m.fields ++ m.oneofs.flatMap Oneof.fields

mutual

/-- A message. -/
def ofMessage (version3 : Bool) : Message → MessageDescriptor
  | m@⟨_, _, _, _, messages, _, _, _, _, _⟩ =>
    { name := m.name.text
      fields := ofPlainFields version3 m.oneofs.length m.fields ++ ofOneofs 0 m.oneofs
      nested := (allFields m).filterMap entryOf? ++ ofMessages version3 messages
      enums := m.enums.map ofEnum
      extensionRanges := extensionRanges m.extensions
      extensions := m.extendBlocks.flatMap ofExtend
      oneofs := oneofNames version3 m
      reservedRanges := reservedRanges m.reserved
      reservedNames := reservedNames m.reserved }

/-- Several messages. -/
def ofMessages (version3 : Bool) : List Message → List MessageDescriptor
  | [] => []
  | m :: rest => ofMessage version3 m :: ofMessages version3 rest

end

/-- A service. -/
def ofService (s : Service) : ServiceDescriptor where
  name := s.name.text
  methods := s.methods.map fun m =>
    { name := m.name.text
      inputType := m.request.text
      outputType := m.response.text
      clientStreaming := m.requestStream
      serverStreaming := m.responseStream }

/-! ## Files -/

/-- The places of the imports with the given modifier. -/
def placesOf (modifier : ImportModifier) (imports : List Import) : List Nat :=
  imports.zipIdx.filterMap fun (i, place) =>
    if i.modifier = some modifier then some place else none

/-- Whether a file is written in version 3 of the language. -/
def isVersion3 (f : File) : Bool :=
  (f.edition.map fun e => e.version.value) == some "proto3"

/-- The descriptor of a file, under the given name. -/
def ofFile (f : File) (name : String) : FileDescriptor where
  name := name
  package := f.package.map fun p => p.name.text
  dependencies := f.imports.map fun i => i.path.value
  messages := ofMessages (isVersion3 f) f.messages
  enums := f.enums.map ofEnum
  services := f.services.map ofService
  extensions := f.extendBlocks.flatMap ofExtend
  publicDependencies := placesOf .publicly f.imports
  weakDependencies := placesOf .weak f.imports
  edition := f.edition.map fun e => e.version.value

end ProtoDecl.Descriptor
