import ProtoDecl.Schema.Grammar.File

/-!
# Sights

A sight says what is seen of spans and tokens.  Two readings are compared by what is seen of their
results: with `Sight.sharp` that is everything, with `Sight.textual` it is everything but where
things stand.

* `Sight`, with what the reading of tokens asks of one;
* `Seen`, the types of which something can be seen, from spans up to whole files.  With sharp eyes
  everything is seen of them (`Seen.seen_sharp`).
-/

namespace ProtoDecl.Schema

/-- The span of what has no place. -/
def nowhere : Span :=
  ⟨0, 0, 0, 0⟩

/-- What is seen of spans and tokens.  Kinds are always seen, and values too, except that of the end
of the file. -/
structure Sight where
  /-- What is seen of a span. -/
  span : Span → Span
  /-- What is seen of a token. -/
  token : Token → Token
  /-- The offsets that cannot be told apart. -/
  near : Nat → Nat → Prop
  token_kind : ∀ t, (token t).kind = t.kind
  token_value : ∀ t, t.kind ≠ .endOfFile → (token t).value = t.value
  token_span : ∀ t, (token t).span = span t.span
  near_zero : near 0 0
  near_stop : ∀ {a b : Span}, span a = span b → near a.stop b.stop
  span_extendTo : ∀ {a b : Span} {m n : Nat}, span a = span b → near m n →
    span (a.extendTo m) = span (b.extendTo n)
  span_through : ∀ {a b a' b' : Span}, span a = span b → span a' = span b' →
    span (a.through a') = span (b.through b')

namespace Sight

variable {S : Sight} {t u : Token}

theorem kind_eq (h : S.token t = S.token u) : t.kind = u.kind := by
  rw [← S.token_kind, h, S.token_kind]

theorem span_eq (h : S.token t = S.token u) : S.span t.span = S.span u.span := by
  rw [← S.token_span, h, S.token_span]

theorem value_eq (h : S.token t = S.token u) (hk : t.kind ≠ .endOfFile) : t.value = u.value := by
  rw [← S.token_value t hk, h, S.token_value u (kind_eq h ▸ hk)]

/-- Everything is seen. -/
def sharp : Sight where
  span a := a
  token t := t
  near m n := m = n
  token_kind _ := rfl
  token_value _ _ := rfl
  token_span _ := rfl
  near_zero := rfl
  near_stop h := by rw [h]
  span_extendTo h h' := by rw [h, h']
  span_through h h' := by rw [h, h']

@[simp] theorem sharp_span (a : Span) : sharp.span a = a :=
  rfl

/-- The kinds and values of tokens are seen, and nothing of where they stand. -/
def textual : Sight where
  span _ := nowhere
  token t := ⟨t.kind, if t.kind = .endOfFile then "" else t.value, nowhere⟩
  near _ _ := True
  token_kind _ := rfl
  token_value _ h := by simp [h]
  token_span _ := rfl
  near_zero := trivial
  near_stop _ := trivial
  span_extendTo _ _ := rfl
  span_through _ _ := rfl

end Sight

/-- The types of which something can be seen. -/
class Seen (α : Type) where
  /-- What is seen of a value. -/
  seen : Sight → α → α
  seen_sharp : ∀ a, seen .sharp a = a

export Seen (seen seen_sharp)

/-- What a value is, wherever it stands. -/
abbrev bare {α : Type} [Seen α] (a : α) : α :=
  seen .textual a

section
variable {α β : Type} (S : Sight)

/-! ## Values that stand nowhere -/

instance : Seen Unit := ⟨fun _ a => a, fun _ => rfl⟩

instance : Seen Bool := ⟨fun _ a => a, fun _ => rfl⟩

instance : Seen String := ⟨fun _ a => a, fun _ => rfl⟩

instance : Seen Kind := ⟨fun _ a => a, fun _ => rfl⟩

instance : Seen Label := ⟨fun _ a => a, fun _ => rfl⟩

instance : Seen ImportModifier := ⟨fun _ a => a, fun _ => rfl⟩

instance : Seen Parser.MessageStatement := ⟨fun _ a => a, fun _ => rfl⟩

@[simp] theorem seen_unit (a : Unit) : seen S a = a := rfl

@[simp] theorem seen_bool (a : Bool) : seen S a = a := rfl

@[simp] theorem seen_string (a : String) : seen S a = a := rfl

@[simp] theorem seen_kind (a : Kind) : seen S a = a := rfl

@[simp] theorem seen_label (a : Label) : seen S a = a := rfl

@[simp] theorem seen_modifier (a : ImportModifier) : seen S a = a := rfl

@[simp] theorem seen_statement (a : Parser.MessageStatement) : seen S a = a := rfl

/-! ## Spans and containers -/

instance : Seen Span := ⟨Sight.span, fun _ => rfl⟩

instance : Seen Token := ⟨Sight.token, fun _ => rfl⟩

theorem seen_sharp_eq_id [Seen α] : (seen .sharp : α → α) = id :=
  funext seen_sharp

instance [Seen α] : Seen (Option α) where
  seen S := Option.map (seen S)
  seen_sharp a := by rw [seen_sharp_eq_id, Option.map_id, id]

instance [Seen α] : Seen (List α) where
  seen S := List.map (seen S)
  seen_sharp a := by rw [seen_sharp_eq_id, List.map_id]

instance [Seen α] [Seen β] : Seen (α × β) where
  seen S a := (seen S a.1, seen S a.2)
  seen_sharp a := by rw [seen_sharp, seen_sharp]

instance [Seen α] : Seen (Parser.Round α) where
  seen S
    | .again a => .again (seen S a)
    | .done a => .done (seen S a)
  seen_sharp a := by cases a <;> simp [seen_sharp]

@[simp] theorem seen_span (a : Span) : seen S a = S.span a := rfl

@[simp] theorem seen_token (t : Token) : seen S t = S.token t := rfl

@[simp] theorem seen_none [Seen α] : seen S (none : Option α) = none := rfl

@[simp] theorem seen_some [Seen α] (a : α) : seen S (some a) = some (seen S a) := rfl

@[simp] theorem seen_nil [Seen α] : seen S ([] : List α) = [] := rfl

@[simp] theorem seen_cons [Seen α] (a : α) (as : List α) :
    seen S (a :: as) = seen S a :: seen S as := rfl

@[simp] theorem seen_append [Seen α] (as bs : List α) :
    seen S (as ++ bs) = seen S as ++ seen S bs :=
  List.map_append

@[simp] theorem seen_toList [Seen α] (o : Option α) : seen S o.toList = (seen S o).toList := by
  cases o <;> rfl

@[simp] theorem seen_pair [Seen α] [Seen β] (a : α) (b : β) :
    seen S (a, b) = (seen S a, seen S b) := rfl

@[simp] theorem seen_again [Seen α] (a : α) :
    seen S (Parser.Round.again a) = .again (seen S a) := rfl

@[simp] theorem seen_done [Seen α] (a : α) :
    seen S (Parser.Round.done a) = .done (seen S a) := rfl

theorem isSome_of_seen_eq [Seen α] {o o' : Option α} (h : seen S o = seen S o') :
    o.isSome = o'.isSome := by
  cases o <;> cases o' <;> simp_all

end

/-! ## Names, literals and options -/

instance : Seen Name := ⟨fun S n => ⟨n.text, S.span n.span⟩, fun _ => rfl⟩

theorem Name.seen_eq (S : Sight) (n : Name) : seen S n = ⟨n.text, S.span n.span⟩ :=
  rfl

instance : Seen TextLit := ⟨fun S n => ⟨n.value, S.span n.span⟩, fun _ => rfl⟩

theorem TextLit.seen_eq (S : Sight) (n : TextLit) : seen S n = ⟨n.value, S.span n.span⟩ :=
  rfl

instance : Seen NumberLit := ⟨fun S n => ⟨n.raw, S.span n.span⟩, fun _ => rfl⟩

theorem NumberLit.seen_eq (S : Sight) (n : NumberLit) : seen S n = ⟨n.raw, S.span n.span⟩ :=
  rfl

instance : Seen FlagLit := ⟨fun S n => ⟨n.value, S.span n.span⟩, fun _ => rfl⟩

theorem FlagLit.seen_eq (S : Sight) (n : FlagLit) : seen S n = ⟨n.value, S.span n.span⟩ :=
  rfl

instance : Seen Constant where
  seen S
    | .text literal => .text (seen S literal)
    | .number literal => .number (seen S literal)
    | .flag literal => .flag (seen S literal)
  seen_sharp n := by cases n <;> rfl

@[simp] theorem Constant.seen_text (S : Sight) (n : TextLit) :
    seen S (Constant.text n) = .text (seen S n) :=
  rfl

@[simp] theorem Constant.seen_number (S : Sight) (n : NumberLit) :
    seen S (Constant.number n) = .number (seen S n) :=
  rfl

@[simp] theorem Constant.seen_flag (S : Sight) (n : FlagLit) :
    seen S (Constant.flag n) = .flag (seen S n) :=
  rfl

instance : Seen OptionDecl where
  seen S n := ⟨seen S n.name, seen S n.value, S.span n.span⟩
  seen_sharp n := by simp [seen_sharp]

theorem OptionDecl.seen_eq (S : Sight) (n : OptionDecl) :
    seen S n = ⟨seen S n.name, seen S n.value, S.span n.span⟩ :=
  rfl

/-! ## Lists of numbers -/

instance : Seen RangeEnd where
  seen S
    | .number literal => .number (seen S literal)
    | .max word => .max (seen S word)
  seen_sharp n := by cases n <;> rfl

@[simp] theorem RangeEnd.seen_number (S : Sight) (n : NumberLit) :
    seen S (RangeEnd.number n) = .number (seen S n) :=
  rfl

@[simp] theorem RangeEnd.seen_max (S : Sight) (n : Name) :
    seen S (RangeEnd.max n) = .max (seen S n) :=
  rfl

instance : Seen NumberRange where
  seen S n := ⟨seen S n.first, seen S n.last, S.span n.span⟩
  seen_sharp n := by simp [seen_sharp]

theorem NumberRange.seen_eq (S : Sight) (n : NumberRange) :
    seen S n = ⟨seen S n.first, seen S n.last, S.span n.span⟩ :=
  rfl

instance : Seen Parser.NumberOrRange where
  seen S
    | .number literal => .number (seen S literal)
    | .range range => .range (seen S range)
  seen_sharp n := by cases n <;> simp [seen_sharp]

@[simp] theorem Parser.NumberOrRange.seen_number (S : Sight) (n : NumberLit) :
    seen S (Parser.NumberOrRange.number n) = .number (seen S n) :=
  rfl

@[simp] theorem Parser.NumberOrRange.seen_range (S : Sight) (n : NumberRange) :
    seen S (Parser.NumberOrRange.range n) = .range (seen S n) :=
  rfl

instance : Seen ReservedItem where
  seen S
    | .number literal => .number (seen S literal)
    | .name literal => .name (seen S literal)
    | .range range => .range (seen S range)
  seen_sharp n := by cases n <;> simp [seen_sharp]

@[simp] theorem ReservedItem.seen_number (S : Sight) (n : NumberLit) :
    seen S (ReservedItem.number n) = .number (seen S n) :=
  rfl

@[simp] theorem ReservedItem.seen_name (S : Sight) (n : TextLit) :
    seen S (ReservedItem.name n) = .name (seen S n) :=
  rfl

@[simp] theorem ReservedItem.seen_range (S : Sight) (n : NumberRange) :
    seen S (ReservedItem.range n) = .range (seen S n) :=
  rfl

instance : Seen Reserved where
  seen S n := ⟨seen S n.items, S.span n.span⟩
  seen_sharp n := by simp [seen_sharp]

theorem Reserved.seen_eq (S : Sight) (n : Reserved) : seen S n = ⟨seen S n.items, S.span n.span⟩ :=
  rfl

instance : Seen ExtensionRange where
  seen S
    | .number literal => .number (seen S literal)
    | .range range => .range (seen S range)
  seen_sharp n := by cases n <;> simp [seen_sharp]

@[simp] theorem ExtensionRange.seen_number (S : Sight) (n : NumberLit) :
    seen S (ExtensionRange.number n) = .number (seen S n) :=
  rfl

@[simp] theorem ExtensionRange.seen_range (S : Sight) (n : NumberRange) :
    seen S (ExtensionRange.range n) = .range (seen S n) :=
  rfl

instance : Seen Extensions where
  seen S n := ⟨seen S n.ranges, seen S n.options, S.span n.span⟩
  seen_sharp n := by simp [seen_sharp]

theorem Extensions.seen_eq (S : Sight) (n : Extensions) :
    seen S n = ⟨seen S n.ranges, seen S n.options, S.span n.span⟩ :=
  rfl

/-! ## Declarations -/

instance : Seen FieldLabel := ⟨fun S n => ⟨n.label, S.span n.span⟩, fun _ => rfl⟩

theorem FieldLabel.seen_eq (S : Sight) (n : FieldLabel) : seen S n = ⟨n.label, S.span n.span⟩ :=
  rfl

/-- What is seen of a type, and of the types inside it. -/
def FieldType.seen (S : Sight) : FieldType → FieldType
  | ⟨name, arguments, span⟩ => ⟨Seen.seen S name, arguments.map (FieldType.seen S), S.span span⟩

theorem FieldType.seen_sharp (t : FieldType) : t.seen .sharp = t := by
  fun_induction FieldType.seen Sight.sharp t with
  | case1 name arguments span ih =>
    rw [List.map_congr_left ih, List.map_id', Seen.seen_sharp]
    rfl

instance : Seen FieldType := ⟨FieldType.seen, FieldType.seen_sharp⟩

theorem FieldType.seen_eq (S : Sight) (n : FieldType) :
    Seen.seen S n = ⟨Seen.seen S n.name, Seen.seen S n.arguments, S.span n.span⟩ := by
  cases n
  change FieldType.seen S _ = _
  rw [FieldType.seen]
  rfl

instance : Seen Field where
  seen S n := ⟨seen S n.label, seen S n.type, seen S n.name, seen S n.number, seen S n.options,
    S.span n.span⟩
  seen_sharp n := by simp [seen_sharp]

theorem Field.seen_eq (S : Sight) (n : Field) :
    seen S n = ⟨seen S n.label, seen S n.type, seen S n.name, seen S n.number, seen S n.options,
      S.span n.span⟩ :=
  rfl

instance : Seen Oneof where
  seen S n := ⟨seen S n.name, seen S n.fields, seen S n.options, S.span n.span⟩
  seen_sharp n := by simp [seen_sharp]

theorem Oneof.seen_eq (S : Sight) (n : Oneof) :
    seen S n = ⟨seen S n.name, seen S n.fields, seen S n.options, S.span n.span⟩ :=
  rfl

instance : Seen EnumValue where
  seen S n := ⟨seen S n.name, seen S n.number, seen S n.options, S.span n.span⟩
  seen_sharp n := by simp [seen_sharp]

theorem EnumValue.seen_eq (S : Sight) (n : EnumValue) :
    seen S n = ⟨seen S n.name, seen S n.number, seen S n.options, S.span n.span⟩ :=
  rfl

instance : Seen EnumDecl where
  seen S n := ⟨seen S n.name, seen S n.values, seen S n.options, seen S n.reserved, S.span n.span⟩
  seen_sharp n := by simp [seen_sharp]

theorem EnumDecl.seen_eq (S : Sight) (n : EnumDecl) :
    seen S n =
      ⟨seen S n.name, seen S n.values, seen S n.options, seen S n.reserved, S.span n.span⟩ :=
  rfl

instance : Seen Extend where
  seen S n := ⟨seen S n.extendee, seen S n.fields, S.span n.span⟩
  seen_sharp n := by simp [seen_sharp]

theorem Extend.seen_eq (S : Sight) (n : Extend) :
    seen S n = ⟨seen S n.extendee, seen S n.fields, S.span n.span⟩ :=
  rfl

/-- What is seen of a message, and of the messages inside it. -/
def Message.seen (S : Sight) : Message → Message
  | ⟨name, fields, oneofs, enums, messages, extendBlocks, reserved, extensions, options, span⟩ =>
    ⟨Seen.seen S name, Seen.seen S fields, Seen.seen S oneofs, Seen.seen S enums,
      messages.map (Message.seen S), Seen.seen S extendBlocks, Seen.seen S reserved,
      Seen.seen S extensions, Seen.seen S options, S.span span⟩

theorem Message.seen_sharp (m : Message) : m.seen .sharp = m := by
  fun_induction Message.seen Sight.sharp m with
  | case1 name fields oneofs enums messages extendBlocks reserved extensions options span ih =>
    rw [List.map_congr_left ih, List.map_id']
    simp [Seen.seen_sharp]

instance : Seen Message := ⟨Message.seen, Message.seen_sharp⟩

theorem Message.seen_eq (S : Sight) (n : Message) :
    Seen.seen S n = ⟨Seen.seen S n.name, Seen.seen S n.fields, Seen.seen S n.oneofs,
      Seen.seen S n.enums, Seen.seen S n.messages, Seen.seen S n.extendBlocks,
      Seen.seen S n.reserved, Seen.seen S n.extensions, Seen.seen S n.options, S.span n.span⟩ := by
  cases n
  change Message.seen S _ = _
  rw [Message.seen]
  rfl

instance : Seen Method where
  seen S n := ⟨seen S n.name, seen S n.request, n.requestStream, seen S n.response,
    n.responseStream, seen S n.options, S.span n.span⟩
  seen_sharp n := by simp [seen_sharp]

theorem Method.seen_eq (S : Sight) (n : Method) :
    seen S n = ⟨seen S n.name, seen S n.request, n.requestStream, seen S n.response,
      n.responseStream, seen S n.options, S.span n.span⟩ :=
  rfl

instance : Seen Service where
  seen S n := ⟨seen S n.name, seen S n.methods, seen S n.options, S.span n.span⟩
  seen_sharp n := by simp [seen_sharp]

theorem Service.seen_eq (S : Sight) (n : Service) :
    seen S n = ⟨seen S n.name, seen S n.methods, seen S n.options, S.span n.span⟩ :=
  rfl

/-! ## Files and errors -/

instance : Seen Import where
  seen S n := ⟨seen S n.path, n.modifier, S.span n.span⟩
  seen_sharp _ := rfl

theorem Import.seen_eq (S : Sight) (n : Import) :
    seen S n = ⟨seen S n.path, n.modifier, S.span n.span⟩ :=
  rfl

instance : Seen Package := ⟨fun S n => ⟨seen S n.name, S.span n.span⟩, fun _ => rfl⟩

theorem Package.seen_eq (S : Sight) (n : Package) : seen S n = ⟨seen S n.name, S.span n.span⟩ :=
  rfl

instance : Seen Edition := ⟨fun S n => ⟨seen S n.version, S.span n.span⟩, fun _ => rfl⟩

theorem Edition.seen_eq (S : Sight) (n : Edition) : seen S n = ⟨seen S n.version, S.span n.span⟩ :=
  rfl

instance : Seen File where
  seen S n := ⟨seen S n.edition, seen S n.package, seen S n.imports, seen S n.options,
    seen S n.enums, seen S n.messages, seen S n.services, seen S n.extendBlocks, S.span n.span⟩
  seen_sharp n := by simp [seen_sharp]

theorem File.seen_eq (S : Sight) (n : File) :
    seen S n = ⟨seen S n.edition, seen S n.package, seen S n.imports, seen S n.options,
      seen S n.enums, seen S n.messages, seen S n.services, seen S n.extendBlocks, S.span n.span⟩ :=
  rfl

instance : Seen SyntaxError where
  seen S
    | .unexpected wanted found => .unexpected wanted (S.token found)
    | .lateEdition span => .lateEdition (S.span span)
    | .repeatedPackage name span => .repeatedPackage name (S.span span)
    | .fieldNumber raw span => .fieldNumber raw (S.span span)
    | .enumNumber raw span => .enumNumber raw (S.span span)
  seen_sharp n := by cases n <;> rfl

end ProtoDecl.Schema
