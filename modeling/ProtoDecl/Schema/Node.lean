import ProtoDecl.Schema.Basic

/-!
# Nodes of a schema

One type for all nodes of the tree, for whoever wants to visit them without regard to their shape.

* `NodeKind`, the 22 kinds of node;
* `Node`, a node of any kind, with its span and its children;
* `Node.walk`, every node under a node, parents before children.

Children stand in a fixed order by role: a name first, then options, then what is declared.
-/

namespace ProtoDecl.Schema

/-- The kinds of node. -/
inductive NodeKind where
  | name
  | text
  | number
  | flag
  | option
  | range
  | reserved
  | field
  | fieldType
  | fieldLabel
  | oneof
  | enumValue
  | enum
  | extensions
  | extend
  | message
  | method
  | service
  | importDecl
  | package
  | edition
  | file
deriving DecidableEq, Repr

/-- The label of a kind in listings. -/
def NodeKind.label : NodeKind → String
  | name => "Identifier"
  | text => "StringLiteral"
  | number => "NumberLiteral"
  | flag => "BooleanLiteral"
  | option => "Option"
  | range => "Range"
  | reserved => "Reserved"
  | field => "Field"
  | fieldType => "FieldType"
  | fieldLabel => "FieldLabel"
  | oneof => "Oneof"
  | enumValue => "EnumField"
  | enum => "Enum"
  | extensions => "Extensions"
  | extend => "Extend"
  | message => "Message"
  | method => "Rpc"
  | service => "Service"
  | importDecl => "Import"
  | package => "Package"
  | edition => "Syntax"
  | file => "File"

/-- A node of the tree. -/
inductive Node where
  | name (node : Name)
  | text (node : TextLit)
  | number (node : NumberLit)
  | flag (node : FlagLit)
  | option (node : OptionDecl)
  | range (node : NumberRange)
  | reserved (node : Reserved)
  | field (node : Field)
  | fieldType (node : FieldType)
  | fieldLabel (node : FieldLabel)
  | oneof (node : Oneof)
  | enumValue (node : EnumValue)
  | enum (node : EnumDecl)
  | extensions (node : Extensions)
  | extend (node : Extend)
  | message (node : Message)
  | method (node : Method)
  | service (node : Service)
  | importDecl (node : Import)
  | package (node : Package)
  | edition (node : Edition)
  | file (node : File)

namespace Node

/-- The kind of a node. -/
def kind : Node → NodeKind
  | name _ => .name
  | text _ => .text
  | number _ => .number
  | flag _ => .flag
  | option _ => .option
  | range _ => .range
  | reserved _ => .reserved
  | field _ => .field
  | fieldType _ => .fieldType
  | fieldLabel _ => .fieldLabel
  | oneof _ => .oneof
  | enumValue _ => .enumValue
  | enum _ => .enum
  | extensions _ => .extensions
  | extend _ => .extend
  | message _ => .message
  | method _ => .method
  | service _ => .service
  | importDecl _ => .importDecl
  | package _ => .package
  | edition _ => .edition
  | file _ => .file

/-- Where a node stands. -/
def span : Node → Span
  | name node => node.span
  | text node => node.span
  | number node => node.span
  | flag node => node.span
  | option node => node.span
  | range node => node.span
  | reserved node => node.span
  | field node => node.span
  | fieldType node => node.span
  | fieldLabel node => node.span
  | oneof node => node.span
  | enumValue node => node.span
  | enum node => node.span
  | extensions node => node.span
  | extend node => node.span
  | message node => node.span
  | method node => node.span
  | service node => node.span
  | importDecl node => node.span
  | package node => node.span
  | edition node => node.span
  | file node => node.span

/-- The node of an option's value. -/
def ofConstant : Constant → Node
  | .text literal => text literal
  | .number literal => number literal
  | .flag literal => flag literal

/-- The node of the end of a range. -/
def ofRangeEnd : RangeEnd → Node
  | .number literal => number literal
  | .max word => name word

/-- The node of an item of a reserved list. -/
def ofReservedItem : ReservedItem → Node
  | .number literal => number literal
  | .name literal => text literal
  | .range r => range r

/-- The node of an item of an extension list. -/
def ofExtensionRange : ExtensionRange → Node
  | .number literal => number literal
  | .range r => range r

/-- The nodes that a node directly owns. -/
def children : Node → List Node
  | name _ => []
  | text _ => []
  | number _ => []
  | flag _ => []
  | fieldLabel _ => []
  | option n => name n.name :: (n.value.map ofConstant).toList
  | range n => [number n.first, ofRangeEnd n.last]
  | reserved n => n.items.map ofReservedItem
  | field n =>
    (n.label.map fieldLabel).toList
      ++ [fieldType n.type, name n.name, number n.number] ++ n.options.map option
  | fieldType n => name n.name :: n.arguments.map fieldType
  | oneof n => name n.name :: (n.options.map option ++ n.fields.map field)
  | enumValue n => name n.name :: number n.number :: n.options.map option
  | enum n =>
    name n.name :: (n.options.map option ++ n.values.map enumValue ++ n.reserved.map reserved)
  | extensions n => n.ranges.map ofExtensionRange ++ n.options.map option
  | extend n => name n.extendee :: n.fields.map field
  | message n =>
    name n.name :: (n.options.map option ++ n.fields.map field ++ n.oneofs.map oneof
      ++ n.enums.map enum ++ n.messages.map message ++ n.extendBlocks.map extend
      ++ n.reserved.map reserved ++ (n.extensions.map extensions).toList)
  | method n => name n.name :: name n.request :: name n.response :: n.options.map option
  | service n => name n.name :: (n.options.map option ++ n.methods.map method)
  | importDecl n => [text n.path]
  | package n => [name n.name]
  | edition n => [text n.version]
  | file n =>
    (n.edition.map edition).toList ++ (n.package.map package).toList ++ n.imports.map importDecl
      ++ n.options.map option ++ n.enums.map enum ++ n.messages.map message
      ++ n.services.map service ++ n.extendBlocks.map extend

/-! ## Visiting -/

theorem sizeOf_lt_of_mem_map {α : Type} [SizeOf α] {f : α → Node} {xs : List α} {child : Node}
    (hf : ∀ x, sizeOf (f x) ≤ 1 + sizeOf x) (h : child ∈ xs.map f) :
    sizeOf child < 1 + sizeOf xs := by
  obtain ⟨x, hx, rfl⟩ := List.mem_map.1 h
  have := List.sizeOf_lt_of_mem hx
  have := hf x
  omega

theorem sizeOf_lt_of_mem_toList {α : Type} [SizeOf α] {f : α → Node} {x? : Option α}
    {child : Node} (hf : ∀ x, sizeOf (f x) ≤ 1 + sizeOf x) (h : child ∈ (x?.map f).toList) :
    sizeOf child < 1 + sizeOf x? := by
  cases x? with
  | none => simp at h
  | some x =>
    have := hf x
    simp only [Option.map_some, Option.toList_some, List.mem_singleton] at h
    subst h
    simp only [Option.some.sizeOf_spec]
    omega

theorem sizeOf_ofConstant (c : Constant) : sizeOf (ofConstant c) ≤ 1 + sizeOf c := by
  cases c <;> simp [ofConstant]

theorem sizeOf_ofRangeEnd (e : RangeEnd) : sizeOf (ofRangeEnd e) ≤ 1 + sizeOf e := by
  cases e <;> simp [ofRangeEnd]

theorem sizeOf_ofReservedItem (i : ReservedItem) : sizeOf (ofReservedItem i) ≤ 1 + sizeOf i := by
  cases i <;> simp [ofReservedItem]

theorem sizeOf_ofExtensionRange (r : ExtensionRange) :
    sizeOf (ofExtensionRange r) ≤ 1 + sizeOf r := by
  cases r <;> simp [ofExtensionRange]

/-- A child is smaller than its parent. -/
theorem sizeOf_lt_of_mem_children {parent child : Node} (h : child ∈ parent.children) :
    sizeOf child < sizeOf parent := by
  have hmap {α : Type} [SizeOf α] {f : α → Node} {xs : List α} (h : child ∈ xs.map f)
      (hf : ∀ x, sizeOf (f x) ≤ 1 + sizeOf x) := sizeOf_lt_of_mem_map hf h
  have hopt {α : Type} [SizeOf α] {f : α → Node} {x? : Option α}
      (h : child ∈ (x?.map f).toList) (hf : ∀ x, sizeOf (f x) ≤ 1 + sizeOf x) :=
    sizeOf_lt_of_mem_toList hf h
  cases parent <;> rename_i n <;> cases n <;>
    simp only [children, List.mem_cons, List.mem_append, List.not_mem_nil, or_false,
      or_assoc] at h <;>
    (repeat' (rcases h with h | h)) <;>
    first
      | simp; omega
      | have := sizeOf_ofRangeEnd ‹RangeEnd›; simp; omega
      | have := hmap h (by intro x; simp); simp; omega
      | have := hopt h (by intro x; simp); simp; omega
      | have := hmap h sizeOf_ofReservedItem; simp; omega
      | have := hmap h sizeOf_ofExtensionRange; simp; omega
      | have := hopt h sizeOf_ofConstant; simp; omega

/-- A node met on a walk, with the node that owns it. -/
structure Visit where
  node : Node
  parent : Option Node

/-- Every node under `node`, itself first and each parent before its children. -/
def walkFrom (parent : Option Node) (node : Node) : List Visit :=
  ⟨node, parent⟩ :: node.children.attach.flatMap fun child => walkFrom (some node) child.1
termination_by sizeOf node
decreasing_by exact sizeOf_lt_of_mem_children child.2

/-- Every node under `node`, which is taken for the root. -/
def walk (node : Node) : List Visit :=
  walkFrom none node

end Node

end ProtoDecl.Schema
