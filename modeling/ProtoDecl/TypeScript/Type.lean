import ProtoDecl.Scalar
import ProtoDecl.Schema.Basic
import ProtoDecl.Text.Basic

/-!
# TypeScript types and members

How the type of a field is written in TypeScript, and the line that a field becomes in an interface.
-/

namespace ProtoDecl.TypeScript

open Schema

/-- The TypeScript type of a scalar. -/
def ofScalar : Scalar → String
  | .bool => "boolean"
  | .string => "string"
  | .bytes => "Uint8Array"
  | _ => "number"

/-- The TypeScript type of a scalar given by name; any other name has none. -/
def scalarType? (name : String) : Option String :=
  (Scalar.ofName? name).map ofScalar

/-- A declared type by its name, without the leading dot of a full name. -/
def reference (name : String) : String :=
  match Text.dropStart? ['.'] name.toList with
  | some rest => String.ofList rest
  | none => name

/-- The TypeScript type of a field type.  A map without its two arguments is a record of
anything. -/
def typeOf : FieldType → String
  | ⟨name, arguments, _⟩ =>
    if name.text = "map" then
      match arguments with
      | [key, value] => "Record<" ++ typeOf key ++ ", " ++ typeOf value ++ ">"
      | _ => "Record<string, unknown>"
    else
      match scalarType? name.text with
      | some type => type
      | none => reference name.text

/-- A member of an interface. -/
structure Member where
  name : String
  isOptional : Bool
  type : String
  isArray : Bool
deriving DecidableEq, Repr

/-- The member that a field becomes.  In some places every member is optional. -/
def Member.ofField (alwaysOptional : Bool) (f : Field) : Member where
  name := f.name.text
  isOptional := alwaysOptional || f.label? == some .optional
  type := typeOf f.type
  isArray := f.label? == some .repeated

/-- A member on its line. -/
def Member.line (m : Member) : String :=
  m.name ++ (if m.isOptional then "?" else "") ++ ": " ++ m.type
    ++ (if m.isArray then "[]" else "") ++ ";"

end ProtoDecl.TypeScript
