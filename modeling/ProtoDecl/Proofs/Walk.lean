import Mathlib.Data.List.DropRight
import Mathlib.Data.List.Perm.Basic
import ProtoDecl.Listing.Tree
import ProtoDecl.Schema.Node

/-!
# Walks leave nothing out

The listing of a tree shows every part of every node, whether anything visits the part or not.  So
it tells what a walk has to come to: the records that have a position, at any depth, each of them
owned by the next such record around it.

* `Json.outermost` and `Json.entries` find these records in any value, and `Json.isKind` tells by
  the members of a record which kind of node it is;
* `Node.form` is the record of a node.  The children of a node are just the records right inside its
  own, in some order (`Node.owned_children`);
* `Node.Preorder` says of a list of visits that it goes through a tree depth first, parents before
  children and each with its owner.  Such a list has all records in it (`Node.Preorder.entries`);
* `Node.walk_exhaustive` puts this together for the walk through a file.
-/

namespace ProtoDecl

namespace Listing.Json

/-! ## Records with a position -/

/-- The values that a value is made of. -/
def items : Json → List Json
  | list values => values
  | record members => members.map Prod.snd
  | _ => []

theorem sizeOf_lt_of_mem_items {v item : Json} (h : item ∈ v.items) : sizeOf item < sizeOf v := by
  cases v with
  | list values =>
    have hlt : sizeOf item < sizeOf values := List.sizeOf_lt_of_mem h
    simp only [list.sizeOf_spec]
    omega
  | record members =>
    obtain ⟨⟨key, value⟩, hmember, rfl⟩ := List.mem_map.1 h
    have hlt := List.sizeOf_lt_of_mem hmember
    simp only [Prod.mk.sizeOf_spec] at hlt
    simp only [record.sizeOf_spec]
    omega
  | null | bool | whole | real | text => exact absurd h List.not_mem_nil

/-- Whether a value is a record that has a position. -/
def isPlaced : Json → Bool
  | record members => members.any fun member => member.1 == "position"
  | _ => false

/-- Whether a value is a text. -/
def isText : Json → Bool
  | text _ => true
  | _ => false

/-- Whether a member names the kind of its record, among others that could stand in its place. -/
def isTag (member : String × Json) : Bool :=
  member.1 == "kind" && member.2.isText

/-- A record without the member that names its kind. -/
def untagged : Json → Json
  | record members => record (members.dropWhile isTag)
  | v => v

/-- The records with a position in a value, without those inside other ones. -/
def outermost (v : Json) : List Json :=
  if v.isPlaced then [v.untagged]
  else v.items.attach.flatMap fun item => outermost item.1
termination_by sizeOf v
decreasing_by exact sizeOf_lt_of_mem_items item.2

/-- The records with a position right inside a record. -/
def parts (v : Json) : List Json :=
  v.items.flatMap outermost

/-- All records with a position in a value, and the ones that own them. -/
def entries (owner : Option Json) (v : Json) : List (Json × Option Json) :=
  if v.isPlaced then
    (v.untagged, owner) :: v.items.attach.flatMap fun item => entries (some v.untagged) item.1
  else v.items.attach.flatMap fun item => entries owner item.1
termination_by sizeOf v
decreasing_by all_goals exact sizeOf_lt_of_mem_items item.2

variable {v : Json} {owner : Option Json}

theorem outermost_of_isPlaced (h : v.isPlaced = true) : v.outermost = [v.untagged] := by
  rw [outermost, if_pos h]

theorem outermost_of_not_isPlaced (h : v.isPlaced = false) :
    v.outermost = v.items.flatMap outermost := by
  rw [outermost, if_neg (by simp [h])]
  simp

theorem entries_of_isPlaced (h : v.isPlaced = true) :
    v.entries owner = (v.untagged, owner) :: v.items.flatMap (entries (some v.untagged)) := by
  rw [entries, if_pos h]
  simp

theorem entries_of_not_isPlaced (h : v.isPlaced = false) :
    v.entries owner = v.items.flatMap (entries owner) := by
  rw [entries, if_neg (by simp [h])]
  simp

/-! ## Tags -/

/-- What names a kind is a text, and no position. -/
theorem isTag_cases {member : String × Json} (h : isTag member = true) :
    ∃ kind, member = ("kind", text kind) := by
  obtain ⟨key, value⟩ := member
  obtain ⟨hkey, hvalue⟩ := Bool.and_eq_true_iff.1 h
  cases value with
  | text kind =>
    have hkey : key = "kind" := beq_iff_eq.1 hkey
    exact ⟨kind, by rw [hkey]⟩
  | null | bool | whole | real | list | record => cases hvalue

theorem isPlaced_untagged (v : Json) : v.untagged.isPlaced = v.isPlaced := by
  cases v with
  | record members =>
    simp only [untagged, isPlaced]
    induction members with
    | nil => rfl
    | cons member members ih =>
      rw [List.dropWhile_cons]
      split
      · rename_i htag
        obtain ⟨kind, rfl⟩ := isTag_cases htag
        simpa using ih
      · rfl
  | null | bool | whole | real | text | list => rfl

theorem untagged_untagged (v : Json) : v.untagged.untagged = v.untagged := by
  cases v with
  | record members => simp only [untagged, List.dropWhile_idempotent]
  | null | bool | whole | real | text | list => rfl

theorem entries_text (value : String) : (text value).entries owner = [] := by
  rw [entries_of_not_isPlaced rfl]
  rfl

/-- A tag holds no record. -/
theorem flatMap_items_untagged (v : Json) :
    v.untagged.items.flatMap (entries owner) = v.items.flatMap (entries owner) := by
  cases v with
  | record members =>
    simp only [untagged, items]
    induction members with
    | nil => rfl
    | cons member members ih =>
      rw [List.dropWhile_cons]
      split
      · rename_i htag
        obtain ⟨kind, rfl⟩ := isTag_cases htag
        rw [ih, List.map_cons, List.flatMap_cons, entries_text, List.nil_append]
      · rfl
  | null | bool | whole | real | text | list => rfl

theorem entries_untagged (h : v.isPlaced = true) : v.untagged.entries owner = v.entries owner := by
  rw [entries_of_isPlaced h, entries_of_isPlaced (v.isPlaced_untagged.trans h), untagged_untagged,
    flatMap_items_untagged]

/-- The records in a value are the outermost ones, with all that is in them. -/
theorem flatMap_outermost (owner : Option Json) (v : Json) :
    v.outermost.flatMap (entries owner) = v.entries owner := by
  fun_induction outermost v with
  | case1 v h => rw [List.flatMap_singleton, entries_untagged h]
  | case2 v h ih =>
    rw [entries_of_not_isPlaced (Bool.eq_false_iff.2 h), List.flatMap_assoc]
    simp only [ih]
    simp

/-- The records in a record are itself and those that are under its parts. -/
theorem entries_eq_parts (h : v.isPlaced = true) :
    v.entries owner = (v.untagged, owner) :: v.parts.flatMap (entries (some v.untagged)) := by
  rw [entries_of_isPlaced h, parts, List.flatMap_assoc]
  simp only [flatMap_outermost]

end Listing.Json

/-! ## Kinds -/

namespace Schema.NodeKind

/-- What the record of a node has before its position. -/
def keys : NodeKind → List String
  | name => ["name"]
  | text => ["value"]
  | number => ["value", "raw"]
  | flag => ["value"]
  | option => ["name", "value"]
  | range => ["start", "end"]
  | reserved => ["items"]
  | field => ["label", "field_type", "name", "number", "options"]
  | fieldType => ["name", "arguments"]
  | fieldLabel => ["label"]
  | oneof => ["name", "fields", "options"]
  | enumValue => ["name", "value", "options"]
  | enum => ["name", "values", "options", "reserved"]
  | extensions => ["ranges", "options"]
  | extend => ["extendee", "fields"]
  | message =>
    ["name", "fields", "oneofs", "enums", "messages", "extends", "reserved", "extensions",
      "options"]
  | method =>
    ["name", "request_type", "request_stream", "response_type", "response_stream", "options"]
  | service => ["name", "methods", "options"]
  | importDecl => ["path", "modifier"]
  | package => ["name"]
  | edition => ["version"]
  | file =>
    ["syntax", "package", "imports", "options", "enums", "messages", "services", "extends"]

/-- Whether the record of a node begins with a text. -/
def isTextual : NodeKind → Bool
  | name | text | fieldLabel => true
  | _ => false

/-- No two kinds have records of one look. -/
theorem eq_of_keys {k l : NodeKind} (hkeys : k.keys = l.keys)
    (htextual : k.isTextual = l.isTextual) : k = l := by
  cases k <;> cases l <;> simp_all [keys, isTextual]

end Schema.NodeKind

namespace Listing.Json

open Schema

/-- The names of a record's members. -/
def keys : Json → List String
  | record members => members.map Prod.fst
  | _ => []

/-- Whether a record has the look of a node of the kind: its members, and whether the first of them
is a text. -/
def isKind (kind : NodeKind) (v : Json) : Bool :=
  v.keys == kind.keys ++ ["position"] && v.items.head?.any isText == kind.isTextual

end Listing.Json

/-! ## Trees in trees -/

namespace Listing

open Schema

theorem ofFieldTypes_eq (types : List FieldType) : ofFieldTypes types = types.map ofFieldType := by
  induction types with
  | nil => rfl
  | cons type types ih => rw [ofFieldTypes, ih, List.map_cons]

theorem ofMessages_eq (messages : List Message) : ofMessages messages = messages.map ofMessage := by
  induction messages with
  | nil => rfl
  | cons message messages ih => rw [ofMessages, ih, List.map_cons]

theorem ofFieldType_eq (t : FieldType) :
    ofFieldType t = .record [("name", ofName t.name),
      ("arguments", .ofList ofFieldType t.arguments), ("position", ofSpan t.span)] := by
  cases t
  rw [ofFieldType, ofFieldTypes_eq]
  rfl

theorem ofMessage_eq (m : Message) :
    ofMessage m = .record [("name", ofName m.name), ("fields", .ofList ofField m.fields),
      ("oneofs", .ofList ofOneof m.oneofs), ("enums", .ofList ofEnumDecl m.enums),
      ("messages", .ofList ofMessage m.messages), ("extends", .ofList ofExtend m.extendBlocks),
      ("reserved", .ofList ofReserved m.reserved),
      ("extensions", .ofOption ofExtensions m.extensions),
      ("options", .ofList ofOptionDecl m.options), ("position", ofSpan m.span)] := by
  cases m
  rw [ofMessage, ofMessages_eq]
  rfl

end Listing

namespace Schema.Node

open Listing (Json)

/-- The record of a node. -/
def form : Node → Json
  | name n => Listing.ofName n
  | text n => Listing.ofText n
  | number n => Listing.ofNumber n
  | flag n => .record [("value", .bool n.value), ("position", Listing.ofSpan n.span)]
  | option n => Listing.ofOptionDecl n
  | range n => .record (Listing.rangeMembers n)
  | reserved n => Listing.ofReserved n
  | field n => Listing.ofField n
  | fieldType n => Listing.ofFieldType n
  | fieldLabel n => Listing.ofFieldLabel n
  | oneof n => Listing.ofOneof n
  | enumValue n => Listing.ofEnumValue n
  | enum n => Listing.ofEnumDecl n
  | extensions n => Listing.ofExtensions n
  | extend n => Listing.ofExtend n
  | message n => Listing.ofMessage n
  | method n => Listing.ofMethod n
  | service n => Listing.ofService n
  | importDecl n => Listing.ofImport n
  | package n => Listing.ofPackage n
  | edition n => Listing.ofEdition n
  | file n => Listing.ofFile n

/-- The members of a node's record. -/
theorem form_eq_record (n : Node) :
    ∃ key value members, n.form = .record ((key, value) :: members) ∧ key ≠ "kind" ∧
      "position" ∈ members.map Prod.fst := by
  cases n with
  | fieldType t => exact ⟨_, _, _, Listing.ofFieldType_eq t, by decide, by simp⟩
  | message m => exact ⟨_, _, _, Listing.ofMessage_eq m, by decide, by simp⟩
  | _ => exact ⟨_, _, _, rfl, by decide, by simp⟩

theorem isPlaced_form (n : Node) : n.form.isPlaced = true := by
  obtain ⟨key, value, members, hform, -, hposition⟩ := n.form_eq_record
  obtain ⟨member, hmember, hkey⟩ := List.mem_map.1 hposition
  rw [hform, Json.isPlaced, List.any_eq_true]
  exact ⟨member, List.mem_cons_of_mem _ hmember, beq_iff_eq.2 hkey⟩

theorem untagged_form (n : Node) : n.form.untagged = n.form := by
  obtain ⟨key, value, members, hform, hkey, -⟩ := n.form_eq_record
  have htag : Json.isTag (key, value) = false := by simp [Json.isTag, hkey]
  rw [hform, Json.untagged, List.dropWhile_cons, if_neg (by simp [htag])]

/-! ## Owners and what they own -/

/-- The outermost records of a value are those of the given nodes. -/
def Lists (v : Json) (ns : List Node) : Prop :=
  v.outermost = ns.map form

theorem lists_of_untagged {v : Json} {n : Node} (hplaced : v.isPlaced = true)
    (h : v.untagged = n.form) : Lists v [n] := by
  rw [Lists, Json.outermost_of_isPlaced hplaced, h]
  rfl

theorem lists_form (n : Node) : Lists n.form [n] :=
  lists_of_untagged n.isPlaced_form n.untagged_form

theorem lists_of_items {v : Json} (hplaced : v.isPlaced = false)
    (h : ∀ item ∈ v.items, Lists item []) : Lists v [] := by
  rw [Lists, Json.outermost_of_not_isPlaced hplaced]
  exact List.flatMap_eq_nil_iff.2 h

theorem lists_text (value : String) : Lists (.text value) [] :=
  lists_of_items rfl nofun

theorem lists_bool (value : Bool) : Lists (.bool value) [] :=
  lists_of_items rfl nofun

theorem lists_real (value : Number.Double) : Lists (.real value) [] :=
  lists_of_items rfl nofun

theorem lists_whole (value : Nat) : Lists (.whole value) [] :=
  lists_of_items rfl nofun

/-- A span is no node. -/
theorem lists_span (s : Span) : Lists (Listing.ofSpan s) [] := by
  refine lists_of_items rfl fun item hitem => ?_
  simp only [Listing.ofSpan, Json.items, List.map_cons, List.map_nil, List.mem_cons,
    List.not_mem_nil, or_false] at hitem
  rcases hitem with rfl | rfl | rfl | rfl <;> exact lists_whole _

section Parts

variable {α : Type} {f : α → Json} {g : α → Node}

theorem lists_option (h : ∀ a, Lists (f a) [g a]) (a? : Option α) :
    Lists (.ofOption f a?) (a?.map g).toList := by
  cases a? with
  | none => exact lists_of_items rfl nofun
  | some a => exact h a

theorem lists_list (h : ∀ a, Lists (f a) [g a]) (xs : List α) :
    Lists (.ofList f xs) (xs.map g) := by
  rw [Lists, Json.outermost_of_not_isPlaced rfl]
  change (xs.map f).flatMap Json.outermost = _
  induction xs with
  | nil => rfl
  | cons a xs ih =>
    rw [List.map_cons, List.flatMap_cons, ih, h a]
    rfl

theorem lists_node? (g : α → Node) (a? : Option α) :
    Lists (.ofOption (fun a => (g a).form) a?) (a?.map g).toList :=
  lists_option (fun a => lists_form (g a)) a?

theorem lists_nodes (g : α → Node) (xs : List α) :
    Lists (.ofList (fun a => (g a).form) xs) (xs.map g) :=
  lists_list (fun a => lists_form (g a)) xs

end Parts

theorem lists_constant (c : Constant) : Lists (Listing.ofConstant c) [ofConstant c] := by
  cases c <;> exact lists_of_untagged rfl rfl

theorem lists_rangeEnd (e : RangeEnd) : Lists (Listing.ofRangeEnd e) [ofRangeEnd e] := by
  cases e <;> exact lists_of_untagged rfl rfl

theorem lists_reservedItem (i : ReservedItem) :
    Lists (Listing.ofReservedItem i) [ofReservedItem i] := by
  cases i <;> exact lists_of_untagged rfl rfl

theorem lists_extensionRange (r : ExtensionRange) :
    Lists (Listing.ofExtensionRange r) [ofExtensionRange r] := by
  cases r <;> exact lists_of_untagged rfl rfl

/-- The modifier of an import is no node. -/
theorem lists_modifier (m? : Option ImportModifier) :
    Lists (.ofOption (fun m => .text (Listing.modifierWord m)) m?) [] := by
  cases m? with
  | none => exact lists_of_items rfl nofun
  | some m => exact lists_text _

/-- The nodes that the members of a record show, in the order of the record. -/
inductive Shows : List (String × Json) → List Node → Prop
  | span (s : Span) : Shows [("position", Listing.ofSpan s)] []
  | cons {key : String} {v : Json} {members : List (String × Json)} {ns rest : List Node}
      (first : Lists v ns) (others : Shows members rest) : Shows ((key, v) :: members) (ns ++ rest)

theorem Shows.parts {members : List (String × Json)} {ns : List Node} (h : Shows members ns) :
    (Json.record members).parts = ns.map form := by
  rw [Json.parts, Json.items]
  induction h with
  | span s => rw [List.map_cons, List.flatMap_cons, lists_span s]; rfl
  | cons first _ ih => rw [List.map_cons, List.flatMap_cons, ih, first, List.map_append]

theorem owned_of_shows {n : Node} {members : List (String × Json)} {ns : List Node}
    (hform : n.form = .record members) (h : Shows members ns) (hperm : n.children.Perm ns) :
    (n.children.map form).Perm n.form.parts := by
  rw [hform, h.parts]
  exact hperm.map form

/-- The children of a node are the records right inside its own. -/
theorem owned_children (n : Node) : (n.children.map form).Perm n.form.parts := by
  cases n with
  | name n => exact owned_of_shows rfl (.cons (lists_text n.text) <| .span n.span) (.refl _)
  | text n => exact owned_of_shows rfl (.cons (lists_text n.value) <| .span n.span) (.refl _)
  | number n =>
    exact owned_of_shows rfl
      (.cons (lists_real n.value) <| .cons (lists_text n.raw) <| .span n.span) (.refl _)
  | flag n => exact owned_of_shows rfl (.cons (lists_bool n.value) <| .span n.span) (.refl _)
  | option n =>
    refine owned_of_shows rfl (.cons (lists_form (name n.name)) <|
      .cons (lists_option lists_constant n.value) <| .span n.span) ?_
    simp [children]
  | range n =>
    refine owned_of_shows rfl (.cons (lists_form (number n.first)) <|
      .cons (lists_rangeEnd n.last) <| .span n.span) ?_
    simp [children]
  | reserved n =>
    refine owned_of_shows rfl (.cons (lists_list lists_reservedItem n.items) <| .span n.span) ?_
    simp [children]
  | field n =>
    refine owned_of_shows rfl (.cons (lists_node? fieldLabel n.label) <|
      .cons (lists_form (fieldType n.type)) <| .cons (lists_form (name n.name)) <|
      .cons (lists_form (number n.number)) <| .cons (lists_nodes option n.options) <|
      .span n.span) ?_
    simp [children]
  | fieldType n =>
    refine owned_of_shows (Listing.ofFieldType_eq n) (.cons (lists_form (name n.name)) <|
      .cons (lists_nodes fieldType n.arguments) <| .span n.span) ?_
    simp [children]
  | fieldLabel n =>
    exact owned_of_shows rfl
      (.cons (lists_text (Listing.labelWord n.label)) <| .span n.span) (.refl _)
  | oneof n =>
    refine owned_of_shows rfl (.cons (lists_form (name n.name)) <|
      .cons (lists_nodes field n.fields) <| .cons (lists_nodes option n.options) <|
      .span n.span) ?_
    simpa [children] using List.perm_append_comm
  | enumValue n =>
    refine owned_of_shows rfl (.cons (lists_form (name n.name)) <|
      .cons (lists_form (number n.number)) <| .cons (lists_nodes option n.options) <|
      .span n.span) ?_
    simp [children]
  | enum n =>
    refine owned_of_shows rfl (.cons (lists_form (name n.name)) <|
      .cons (lists_nodes enumValue n.values) <| .cons (lists_nodes option n.options) <|
      .cons (lists_nodes reserved n.reserved) <| .span n.span) ?_
    simpa [children] using List.perm_append_comm_assoc _ _ _
  | extensions n =>
    refine owned_of_shows rfl (.cons (lists_list lists_extensionRange n.ranges) <|
      .cons (lists_nodes option n.options) <| .span n.span) ?_
    simp [children]
  | extend n =>
    refine owned_of_shows rfl (.cons (lists_form (name n.extendee)) <|
      .cons (lists_nodes field n.fields) <| .span n.span) ?_
    simp [children]
  | message n =>
    refine owned_of_shows (Listing.ofMessage_eq n) (.cons (lists_form (name n.name)) <|
      .cons (lists_nodes field n.fields) <| .cons (lists_nodes oneof n.oneofs) <|
      .cons (lists_nodes enum n.enums) <| .cons (lists_nodes message n.messages) <|
      .cons (lists_nodes extend n.extendBlocks) <| .cons (lists_nodes reserved n.reserved) <|
      .cons (lists_node? extensions n.extensions) <| .cons (lists_nodes option n.options) <|
      .span n.span) ?_
    -- Options are visited first and written last.
    simp only [children, List.append_assoc, List.cons_append, List.nil_append, List.append_nil,
      List.perm_cons]
    exact List.perm_append_comm.trans (.of_eq (by simp only [List.append_assoc]))
  | method n =>
    refine owned_of_shows rfl (.cons (lists_form (name n.name)) <|
      .cons (lists_form (name n.request)) <| .cons (lists_bool n.requestStream) <|
      .cons (lists_form (name n.response)) <| .cons (lists_bool n.responseStream) <|
      .cons (lists_nodes option n.options) <| .span n.span) ?_
    simp [children]
  | service n =>
    refine owned_of_shows rfl (.cons (lists_form (name n.name)) <|
      .cons (lists_nodes method n.methods) <| .cons (lists_nodes option n.options) <|
      .span n.span) ?_
    simpa [children] using List.perm_append_comm
  | importDecl n =>
    refine owned_of_shows rfl (.cons (lists_form (text n.path)) <|
      .cons (lists_modifier n.modifier) <| .span n.span) ?_
    simp [children]
  | package n =>
    exact owned_of_shows rfl (.cons (lists_form (name n.name)) <| .span n.span) (.refl _)
  | edition n =>
    exact owned_of_shows rfl (.cons (lists_form (text n.version)) <| .span n.span) (.refl _)
  | file n =>
    refine owned_of_shows rfl (.cons (lists_node? edition n.edition) <|
      .cons (lists_node? package n.package) <| .cons (lists_nodes importDecl n.imports) <|
      .cons (lists_nodes option n.options) <| .cons (lists_nodes enum n.enums) <|
      .cons (lists_nodes message n.messages) <| .cons (lists_nodes service n.services) <|
      .cons (lists_nodes extend n.extendBlocks) <| .span n.span) ?_
    simp [children]

/-! ## Walks -/

/-- A list of visits goes through a tree depth first.  The node itself is visited first, with its
owner; then come the nodes right inside it one after the other, each with all that is under it. -/
inductive Preorder : Option Node → Node → List Visit → Prop
  | mk {owner : Option Node} {n : Node} (inner : List Node) (visits : Node → List Visit)
      (owned : (inner.map form).Perm n.form.parts)
      (below : ∀ child ∈ inner, Preorder (some n) child (visits child)) :
      Preorder owner n (⟨n, owner⟩ :: inner.flatMap visits)

theorem walkFrom_eq (owner : Option Node) (n : Node) :
    n.walkFrom owner = ⟨n, owner⟩ :: n.children.flatMap (walkFrom (some n)) := by
  rw [walkFrom]
  simp

theorem walkFrom_preorder (owner : Option Node) (n : Node) :
    Preorder owner n (walkFrom owner n) := by
  induction owner, n using walkFrom.induct with
  | case1 owner n ih =>
    rw [walkFrom_eq]
    exact .mk n.children (walkFrom (some n)) n.owned_children fun child hchild =>
      ih ⟨child, hchild⟩

/-- What a visit tells about the listing: a record and its owner. -/
def Visit.entry (v : Visit) : Json × Option Json :=
  (v.node.form, v.parent.map form)

/-- A walk comes to every record in that of its root, once for each time that it occurs, and from
its owner. -/
theorem Preorder.entries {owner : Option Node} {n : Node} {visits : List Visit}
    (h : Preorder owner n visits) :
    (visits.map Visit.entry).Perm (n.form.entries (owner.map form)) := by
  induction h with
  | @mk owner n inner visits owned below ih =>
    rw [Json.entries_eq_parts n.isPlaced_form, untagged_form, List.map_cons, List.map_flatMap]
    refine .cons _ ?_
    have hinner : (inner.flatMap fun child => (visits child).map Visit.entry).Perm
        ((inner.map form).flatMap (Json.entries (some n.form))) := by
      rw [List.flatMap_map]
      exact .flatMap_left inner ih
    exact hinner.trans (owned.flatMap_right _)

/-! ## Nodes of one kind -/

theorem keys_form (n : Node) : n.form.keys = n.kind.keys ++ ["position"] := by
  cases n with
  | fieldType t => rw [form, Listing.ofFieldType_eq]; rfl
  | message m => rw [form, Listing.ofMessage_eq]; rfl
  | _ => rfl

theorem isTextual_form (n : Node) : n.form.items.head?.any Json.isText = n.kind.isTextual := by
  cases n with
  | fieldType t => rw [form, Listing.ofFieldType_eq]; rfl
  | message m => rw [form, Listing.ofMessage_eq]; rfl
  | field f => rcases f with ⟨⟨⟩ | ⟨⟩⟩ <;> rfl
  | file f => rcases f with ⟨⟨⟩ | ⟨⟩⟩ <;> rfl
  | _ => rfl

theorem isKind_form (n : Node) (kind : NodeKind) : n.form.isKind kind = decide (n.kind = kind) := by
  rw [Json.isKind, keys_form, isTextual_form, Bool.eq_iff_iff]
  simp only [Bool.and_eq_true, beq_iff_eq, List.append_cancel_right_eq, decide_eq_true_eq]
  constructor
  · rintro ⟨hkeys, htextual⟩
    exact NodeKind.eq_of_keys hkeys htextual
  · rintro rfl
    exact ⟨rfl, rfl⟩

/-- The walk through a file goes through its tree depth first and leaves nothing out.  It comes to
all records of the listing that have a position, each from the one that owns it, and so to as many
nodes of each kind as the listing has. -/
theorem walk_exhaustive (f : File) :
    Preorder none (file f) (walk (file f)) ∧
      ((walk (file f)).map Visit.entry).Perm ((Listing.ofFile f).entries none) ∧
      ∀ kind, (walk (file f)).countP (fun v => v.node.kind = kind) =
        ((Listing.ofFile f).entries none).countP (fun entry => entry.1.isKind kind) := by
  have hpreorder := walkFrom_preorder none (file f)
  have hentries : ((walk (file f)).map Visit.entry).Perm ((Listing.ofFile f).entries none) :=
    hpreorder.entries
  refine ⟨hpreorder, hentries, fun kind => ?_⟩
  rw [← hentries.countP_eq, List.countP_map]
  refine List.countP_congr fun v _ => ?_
  rw [Function.comp, Visit.entry, isKind_form]

end Schema.Node
end ProtoDecl
