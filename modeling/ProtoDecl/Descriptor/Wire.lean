import ProtoDecl.Descriptor.Export

/-!
# Descriptors as bytes

The wire format of the schema language: a message is a sequence of numbered fields, and a field is
either a variable-length number or a block of bytes that its length precedes.

* `Wire.varint`, `Wire.encode`, the format itself;
* the fields of each sort of descriptor, in ascending order of their numbers.  A field that is set
  is written even if its value is empty, zero or false;
* `encodeSet`, the bytes of a set that holds one file.
-/

namespace ProtoDecl.Descriptor

/-! ## The format -/

namespace Wire

/-- The value of a field. -/
inductive Value where
  | varint (number : Nat)
  | block (bytes : List UInt8)
deriving DecidableEq, Repr

/-- A numbered field. -/
structure Field where
  number : Nat
  value : Value
deriving DecidableEq, Repr

/-- A number in groups of seven bits, the lowest first.  All bytes but the last have the high bit
set. -/
def varint (n : Nat) : List UInt8 :=
  if n < 128 then [UInt8.ofNat n] else UInt8.ofNat (n % 128 + 128) :: varint (n / 128)
termination_by n

/-- The bytes of a field. -/
def encodeField (f : Field) : List UInt8 :=
  match f.value with
  | .varint n => varint (f.number * 8) ++ varint n
  | .block bytes => varint (f.number * 8 + 2) ++ varint bytes.length ++ bytes

/-- The bytes of a message. -/
def encode (fields : List Field) : List UInt8 :=
  fields.flatMap encodeField

/-- A field that holds a text. -/
def text (number : Nat) (s : String) : Field :=
  ⟨number, .block s.toUTF8.data.toList⟩

/-- A field that holds a natural number. -/
def natural (number n : Nat) : Field :=
  ⟨number, .varint n⟩

/-- A field that holds a word.  A negative one is extended to 64 bits. -/
def int32 (number : Nat) (n : Int32) : Field :=
  ⟨number, .varint (n.toInt % UInt64.size).toNat⟩

/-- A field that holds a place in a list, as a word. -/
def index (number place : Nat) : Field :=
  int32 number (Int32.ofNat place)

/-- A field that holds a truth value. -/
def flag (number : Nat) (b : Bool) : Field :=
  ⟨number, .varint (if b then 1 else 0)⟩

/-- A field that holds a message. -/
def message (number : Nat) (fields : List Field) : Field :=
  ⟨number, .block (encode fields)⟩

end Wire

open Wire

/-! ## Fields of descriptors -/

/-- A range. -/
def NumberSpan.wire (r : NumberSpan) : List Wire.Field :=
  [int32 1 r.first, int32 2 r.last]

/-- The options of a field. -/
def FieldOptions.wire (o : FieldOptions) : List Wire.Field :=
  (o.packed.map (flag 2)).toList ++ (o.deprecated.map (flag 3)).toList

/-- A field. -/
def FieldDescriptor.wire (f : FieldDescriptor) : List Wire.Field :=
  [text 1 f.name] ++ (f.extendee.map (text 2)).toList
    ++ [int32 3 f.number, natural 4 f.label.code]
    ++ (f.type.map fun t => natural 5 t.code).toList
    ++ (f.typeName.map (text 6)).toList
    ++ (f.defaultValue.map (text 7)).toList
    ++ (f.options.map fun o => message 8 o.wire).toList
    ++ (f.oneofIndex.map (index 9)).toList
    ++ (f.jsonName.map (text 10)).toList
    ++ (if f.tracksPresence then [flag 17 true] else [])

/-- An entry of an enum. -/
def EnumValueDescriptor.wire (v : EnumValueDescriptor) : List Wire.Field :=
  [text 1 v.name, int32 2 v.number]

/-- An enum. -/
def EnumDescriptor.wire (e : EnumDescriptor) : List Wire.Field :=
  [text 1 e.name] ++ e.values.map (fun v => message 2 v.wire)
    ++ e.reservedRanges.map (fun r => message 4 r.wire)
    ++ e.reservedNames.map (text 5)

mutual

/-- A message. -/
def MessageDescriptor.wire : MessageDescriptor → List Wire.Field
  | m@⟨_, _, nested, _, _, _, _, _, _, _⟩ =>
    [text 1 m.name] ++ m.fields.map (fun f => message 2 f.wire)
      ++ wireNested nested
      ++ m.enums.map (fun e => message 4 e.wire)
      ++ m.extensionRanges.map (fun r => message 5 r.wire)
      ++ m.extensions.map (fun f => message 6 f.wire)
      ++ (if m.isMapEntry then [message 7 [flag 7 true]] else [])
      ++ m.oneofs.map (fun name => message 8 [text 1 name])
      ++ m.reservedRanges.map (fun r => message 9 r.wire)
      ++ m.reservedNames.map (text 10)

/-- The messages inside a message. -/
def wireNested : List MessageDescriptor → List Wire.Field
  | [] => []
  | m :: rest => message 3 m.wire :: wireNested rest

end

/-- A method. -/
def MethodDescriptor.wire (m : MethodDescriptor) : List Wire.Field :=
  [text 1 m.name, text 2 m.inputType, text 3 m.outputType, flag 5 m.clientStreaming,
    flag 6 m.serverStreaming]

/-- A service. -/
def ServiceDescriptor.wire (s : ServiceDescriptor) : List Wire.Field :=
  [text 1 s.name] ++ s.methods.map fun m => message 2 m.wire

/-- A file. -/
def FileDescriptor.wire (f : FileDescriptor) : List Wire.Field :=
  [text 1 f.name] ++ (f.package.map (text 2)).toList
    ++ f.dependencies.map (text 3)
    ++ f.messages.map (fun m => message 4 m.wire)
    ++ f.enums.map (fun e => message 5 e.wire)
    ++ f.services.map (fun s => message 6 s.wire)
    ++ f.extensions.map (fun e => message 7 e.wire)
    ++ f.publicDependencies.map (index 10)
    ++ f.weakDependencies.map (index 11)
    ++ (f.edition.map (text 12)).toList

/-- The bytes of the set that holds the descriptor of one file. -/
def encodeSet (f : Schema.File) (name : String) : List UInt8 :=
  Wire.encode [message 1 (ofFile f name).wire]

end ProtoDecl.Descriptor
