/-!
# Scalar types

The types that the schema language itself provides.  Their names are recognised exactly as written.
-/

namespace ProtoDecl

/-- A type of the schema language. -/
inductive Scalar where
  | double
  | float
  | int32
  | int64
  | uint32
  | uint64
  | sint32
  | sint64
  | fixed32
  | fixed64
  | sfixed32
  | sfixed64
  | bool
  | string
  | bytes
deriving DecidableEq, Repr

namespace Scalar

/-- The name of a scalar type. -/
def name : Scalar → String
  | double => "double"
  | float => "float"
  | int32 => "int32"
  | int64 => "int64"
  | uint32 => "uint32"
  | uint64 => "uint64"
  | sint32 => "sint32"
  | sint64 => "sint64"
  | fixed32 => "fixed32"
  | fixed64 => "fixed64"
  | sfixed32 => "sfixed32"
  | sfixed64 => "sfixed64"
  | bool => "bool"
  | string => "string"
  | bytes => "bytes"

/-- Every scalar type, each once. -/
def all : List Scalar :=
  [double, float, int32, int64, uint32, uint64, sint32, sint64, fixed32, fixed64, sfixed32,
    sfixed64, bool, string, bytes]

theorem mem_all (s : Scalar) : s ∈ all := by
  cases s <;> decide

/-- The scalar type with the given name. -/
def ofName? (text : String) : Option Scalar :=
  all.find? fun s => s.name == text

end Scalar

end ProtoDecl
