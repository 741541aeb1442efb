import ProtoDecl.Proofs.Wire.Format

/-!
# Descriptors as messages of their schema

Descriptors have a schema of their own, in which every field that occurs once is optional.  The
records here are its messages, as far as descriptors of this library use them: an optional that is
unset is told apart from one that is set to an empty text, zero or false.

* `Record.File` and the records inside it;
* `FileDescriptor.record`, which says what is set for a descriptor, and to what;
* `Record.File.ofBytes?`, which reads a record from bytes by the numbers of the schema.

Reading is strict.  It refuses a field that the schema does not have, a value of another sort than
the schema says, and a second value where there is room for one.  So whatever it accepts, a reader
that is more lenient accepts with the same result.
-/

namespace ProtoDecl.Descriptor

open Wire

/-! ## Records -/

namespace Record

/-- A range of numbers. -/
structure Range where
  first : Option Int32
  last : Option Int32
deriving DecidableEq

/-- A field.  Its label and its type stand for themselves by their codes. -/
structure Field where
  name : Option String
  extendee : Option String
  number : Option Int32
  label : Option Int32
  type : Option Int32
  typeName : Option String
  defaultValue : Option String
  options : Option FieldOptions
  oneofIndex : Option Int32
  jsonName : Option String
  tracksPresence : Option Bool
deriving DecidableEq

/-- An entry of an enum. -/
structure EnumValue where
  name : Option String
  number : Option Int32
deriving DecidableEq

/-- An enum. -/
structure Enum where
  name : Option String
  values : List EnumValue
  reservedRanges : List Range
  reservedNames : List String
deriving DecidableEq

/-- The options of a message. -/
structure MessageOptions where
  isMapEntry : Option Bool
deriving DecidableEq

/-- A group of alternatives. -/
structure Oneof where
  name : Option String
deriving DecidableEq

/-- A message. -/
structure Message where
  name : Option String
  fields : List Field
  nested : List Message
  enums : List Enum
  extensionRanges : List Range
  extensions : List Field
  options : Option MessageOptions
  oneofs : List Oneof
  reservedRanges : List Range
  reservedNames : List String

/-- A method of a service. -/
structure Method where
  name : Option String
  inputType : Option String
  outputType : Option String
  clientStreaming : Option Bool
  serverStreaming : Option Bool
deriving DecidableEq

/-- A service. -/
structure Service where
  name : Option String
  methods : List Method
deriving DecidableEq

/-- A file. -/
structure File where
  name : Option String
  package : Option String
  dependencies : List String
  messages : List Message
  enums : List Enum
  services : List Service
  extensions : List Field
  publicDependencies : List Int32
  weakDependencies : List Int32
  edition : Option String

/-- A set of files. -/
structure FileSet where
  files : List File

end Record

/-! ## The records of descriptors -/

/-- A range, with both of its ends set. -/
def NumberSpan.record (r : NumberSpan) : Record.Range where
  first := some r.first
  last := some r.last

/-- A field, with its name, number and label set.  Its presence flag is set only to true. -/
def FieldDescriptor.record (f : FieldDescriptor) : Record.Field where
  name := some f.name
  extendee := f.extendee
  number := some f.number
  label := some (Int32.ofNat f.label.code)
  type := f.type.map fun t => Int32.ofNat t.code
  typeName := f.typeName
  defaultValue := f.defaultValue
  options := f.options
  oneofIndex := f.oneofIndex.map Int32.ofNat
  jsonName := f.jsonName
  tracksPresence := if f.tracksPresence then some true else none

/-- An entry of an enum, with both of its parts set. -/
def EnumValueDescriptor.record (v : EnumValueDescriptor) : Record.EnumValue where
  name := some v.name
  number := some v.number

/-- An enum, with its name set. -/
def EnumDescriptor.record (e : EnumDescriptor) : Record.Enum where
  name := some e.name
  values := e.values.map EnumValueDescriptor.record
  reservedRanges := e.reservedRanges.map NumberSpan.record
  reservedNames := e.reservedNames

mutual

/-- A message, with its name set.  Only the entry of a map has options. -/
def MessageDescriptor.record : MessageDescriptor → Record.Message
  | m@⟨_, _, nested, _, _, _, _, _, _, _⟩ =>
    { name := some m.name
      fields := m.fields.map FieldDescriptor.record
      nested := nestedRecords nested
      enums := m.enums.map EnumDescriptor.record
      extensionRanges := m.extensionRanges.map NumberSpan.record
      extensions := m.extensions.map FieldDescriptor.record
      options := if m.isMapEntry then some ⟨some true⟩ else none
      oneofs := m.oneofs.map fun name => ⟨some name⟩
      reservedRanges := m.reservedRanges.map NumberSpan.record
      reservedNames := m.reservedNames }

/-- The messages inside a message. -/
def nestedRecords : List MessageDescriptor → List Record.Message
  | [] => []
  | m :: rest => m.record :: nestedRecords rest

end

/-- A method, with all of its parts set. -/
def MethodDescriptor.record (m : MethodDescriptor) : Record.Method where
  name := some m.name
  inputType := some m.inputType
  outputType := some m.outputType
  clientStreaming := some m.clientStreaming
  serverStreaming := some m.serverStreaming

/-- A service, with its name set. -/
def ServiceDescriptor.record (s : ServiceDescriptor) : Record.Service where
  name := some s.name
  methods := s.methods.map MethodDescriptor.record

/-- A file, with its name set. -/
def FileDescriptor.record (f : FileDescriptor) : Record.File where
  name := some f.name
  package := f.package
  dependencies := f.dependencies
  messages := f.messages.map MessageDescriptor.record
  enums := f.enums.map EnumDescriptor.record
  services := f.services.map ServiceDescriptor.record
  extensions := f.extensions.map FieldDescriptor.record
  publicDependencies := f.publicDependencies.map Int32.ofNat
  weakDependencies := f.weakDependencies.map Int32.ofNat
  edition := f.edition

/-! ## Reading values -/

namespace Wire

/-- A text, which has to be well-formed. -/
def asText? : Value → Option String
  | .block bytes => String.fromUTF8? ⟨bytes.toArray⟩
  | .varint _ => none

/-- A word: the lowest 32 bits of a number. -/
def asInt32? : Value → Option Int32
  | .varint n => some (Int32.ofNat n)
  | .block _ => none

/-- A truth value: whether a number is not zero. -/
def asFlag? : Value → Option Bool
  | .varint n => some (n != 0)
  | .block _ => none

/-- A message, given how to read one from bytes. -/
def asMessage? {α : Type} (read : List UInt8 → Option α) : Value → Option α
  | .block bytes => read bytes
  | .varint _ => none

/-- The fields with a given number, in order. -/
def entries (number : Nat) (fields : List Field) : List Field :=
  fields.filter fun f => f.number == number

/-- The value of a field that occurs at most once. -/
def one? {α : Type} (read : Value → Option α) (number : Nat) (fields : List Field) :
    Option (Option α) :=
  match entries number fields with
  | [] => some none
  | [f] => (read f.value).map some
  | _ => none

/-- The values of a field that may occur any number of times. -/
def many? {α : Type} (read : Value → Option α) (number : Nat) (fields : List Field) :
    Option (List α) :=
  (entries number fields).mapM fun f => read f.value

/-- Reads a message that has no fields with other numbers. -/
def ofBytes? {α : Type} (width : Width) (numbers : List Nat) (read : List Field → Option α)
    (bytes : List UInt8) : Option α := do
  let fields ← decode? width bytes
  if fields.all fun f => numbers.contains f.number then read fields else none

end Wire

/-! ## Reading records -/

namespace Record

variable (width : Width)

/-- A range. -/
def Range.ofBytes? : List UInt8 → Option Range :=
  Wire.ofBytes? width [1, 2] fun fields => do
    return { first := ← one? asInt32? 1 fields, last := ← one? asInt32? 2 fields }

/-- The options of a field. -/
def fieldOptionsOfBytes? : List UInt8 → Option FieldOptions :=
  Wire.ofBytes? width [2, 3] fun fields => do
    return { packed := ← one? asFlag? 2 fields, deprecated := ← one? asFlag? 3 fields }

/-- A field. -/
def Field.ofBytes? : List UInt8 → Option Field :=
  Wire.ofBytes? width [1, 2, 3, 4, 5, 6, 7, 8, 9, 10, 17] fun fields => do
    return {
      name := ← one? asText? 1 fields
      extendee := ← one? asText? 2 fields
      number := ← one? asInt32? 3 fields
      label := ← one? asInt32? 4 fields
      type := ← one? asInt32? 5 fields
      typeName := ← one? asText? 6 fields
      defaultValue := ← one? asText? 7 fields
      options := ← one? (asMessage? (fieldOptionsOfBytes? width)) 8 fields
      oneofIndex := ← one? asInt32? 9 fields
      jsonName := ← one? asText? 10 fields
      tracksPresence := ← one? asFlag? 17 fields }

/-- An entry of an enum. -/
def EnumValue.ofBytes? : List UInt8 → Option EnumValue :=
  Wire.ofBytes? width [1, 2] fun fields => do
    return { name := ← one? asText? 1 fields, number := ← one? asInt32? 2 fields }

/-- An enum. -/
def Enum.ofBytes? : List UInt8 → Option Enum :=
  Wire.ofBytes? width [1, 2, 4, 5] fun fields => do
    return {
      name := ← one? asText? 1 fields
      values := ← many? (asMessage? (EnumValue.ofBytes? width)) 2 fields
      reservedRanges := ← many? (asMessage? (Range.ofBytes? width)) 4 fields
      reservedNames := ← many? asText? 5 fields }

/-- The options of a message. -/
def MessageOptions.ofBytes? : List UInt8 → Option MessageOptions :=
  Wire.ofBytes? width [7] fun fields => do
    return { isMapEntry := ← one? asFlag? 7 fields }

/-- A group of alternatives. -/
def Oneof.ofBytes? : List UInt8 → Option Oneof :=
  Wire.ofBytes? width [1] fun fields => do
    return { name := ← one? asText? 1 fields }

/-- A message, given how to read the messages inside it. -/
def Message.ofBytesWith? (inner : List UInt8 → Option Message) : List UInt8 → Option Message :=
  Wire.ofBytes? width [1, 2, 3, 4, 5, 6, 7, 8, 9, 10] fun fields => do
    return {
      name := ← one? asText? 1 fields
      fields := ← many? (asMessage? (Field.ofBytes? width)) 2 fields
      nested := ← many? (asMessage? inner) 3 fields
      enums := ← many? (asMessage? (Enum.ofBytes? width)) 4 fields
      extensionRanges := ← many? (asMessage? (Range.ofBytes? width)) 5 fields
      extensions := ← many? (asMessage? (Field.ofBytes? width)) 6 fields
      options := ← one? (asMessage? (MessageOptions.ofBytes? width)) 7 fields
      oneofs := ← many? (asMessage? (Oneof.ofBytes? width)) 8 fields
      reservedRanges := ← many? (asMessage? (Range.ofBytes? width)) 9 fields
      reservedNames := ← many? asText? 10 fields }

/-- A message.  What is inside of it is shorter, so the reading comes to an end. -/
def Message.ofBytes? (bytes : List UInt8) : Option Message :=
  Message.ofBytesWith? width
    (fun block => if block.length < bytes.length then Message.ofBytes? block else none) bytes
termination_by bytes.length

/-- A method. -/
def Method.ofBytes? : List UInt8 → Option Method :=
  Wire.ofBytes? width [1, 2, 3, 5, 6] fun fields => do
    return {
      name := ← one? asText? 1 fields
      inputType := ← one? asText? 2 fields
      outputType := ← one? asText? 3 fields
      clientStreaming := ← one? asFlag? 5 fields
      serverStreaming := ← one? asFlag? 6 fields }

/-- A service. -/
def Service.ofBytes? : List UInt8 → Option Service :=
  Wire.ofBytes? width [1, 2] fun fields => do
    return {
      name := ← one? asText? 1 fields
      methods := ← many? (asMessage? (Method.ofBytes? width)) 2 fields }

/-- A file. -/
def File.ofBytes? : List UInt8 → Option File :=
  Wire.ofBytes? width [1, 2, 3, 4, 5, 6, 7, 10, 11, 12] fun fields => do
    return {
      name := ← one? asText? 1 fields
      package := ← one? asText? 2 fields
      dependencies := ← many? asText? 3 fields
      messages := ← many? (asMessage? (Message.ofBytes? width)) 4 fields
      enums := ← many? (asMessage? (Enum.ofBytes? width)) 5 fields
      services := ← many? (asMessage? (Service.ofBytes? width)) 6 fields
      extensions := ← many? (asMessage? (Field.ofBytes? width)) 7 fields
      publicDependencies := ← many? asInt32? 10 fields
      weakDependencies := ← many? asInt32? 11 fields
      edition := ← one? asText? 12 fields }

/-- A set of files. -/
def FileSet.ofBytes? : List UInt8 → Option FileSet :=
  Wire.ofBytes? width [1] fun fields => do
    return { files := ← many? (asMessage? (File.ofBytes? width)) 1 fields }

end Record

end ProtoDecl.Descriptor
