import ProtoDecl.Listing.Tree
import ProtoDecl.Proofs.Grammar.OrdinaryNames
import ProtoDecl.Token.Scan

/-!
# Labels in groups

A field of a group of alternatives is meant to have no label.  `Grammar.plainFile` is the grammar
that says so: it differs from `Grammar.file` in the fields of groups only.  But such fields are read
like any other, and a label in front of one is not reported.  So what is read without errors is a
file of the plain grammar just if no field of a group got a label, and whatever fields a message may
have, a group may have them too (`parse_unlabelled_iff`).

The trees of the plain grammar are the unlabelled ones of the whole grammar.  This is shown rule by
rule: `Rule.satisfying` goes inwards through every way of building rules, until it comes to a field
of a group.
-/

namespace ProtoDecl.Schema

/-! ## Trees without labels in groups -/

/-- Whether the fields of a group have no labels. -/
def Oneof.Unlabelled (o : Oneof) : Prop :=
  ∀ f ∈ o.fields, f.label = none

/-- Whether the fields of groups have no labels, in a message and in all messages inside it. -/
inductive Message.Unlabelled : Message → Prop
  | intro {m : Message} (oneofs : ∀ o ∈ m.oneofs, o.Unlabelled)
      (messages : ∀ m' ∈ m.messages, m'.Unlabelled) : m.Unlabelled

/-- Whether the fields of groups have no labels, at any depth. -/
def File.Unlabelled (f : File) : Prop :=
  ∀ m ∈ f.messages, m.Unlabelled

theorem Message.unlabelled_iff (m : Message) :
    m.Unlabelled ↔ (∀ o ∈ m.oneofs, o.Unlabelled) ∧ ∀ m' ∈ m.messages, m'.Unlabelled :=
  ⟨fun ⟨oneofs, messages⟩ => ⟨oneofs, messages⟩, fun ⟨oneofs, messages⟩ => ⟨oneofs, messages⟩⟩

theorem Oneof.unlabelled_bare_iff (o : Oneof) : (bare o).Unlabelled ↔ o.Unlabelled := by
  change (∀ f ∈ o.fields.map bare, f.label = none) ↔ _
  rw [List.forall_mem_map]
  exact forall₂_congr fun f _ => Option.map_eq_none_iff

/-- Where things stand does not matter. -/
theorem Message.unlabelled_bare_iff (m : Message) : (bare m).Unlabelled ↔ m.Unlabelled := by
  change (m.seen .textual).Unlabelled ↔ _
  fun_induction Message.seen Sight.textual m with
  | case1 name fields oneofs enums messages extendBlocks reserved extensions options span ih =>
    rw [unlabelled_iff, unlabelled_iff]
    refine and_congr ?_ ?_
    · change (∀ o ∈ oneofs.map bare, o.Unlabelled) ↔ _
      rw [List.forall_mem_map]
      exact forall₂_congr fun o _ => o.unlabelled_bare_iff
    · rw [List.forall_mem_map]
      exact forall₂_congr ih

theorem File.unlabelled_bare_iff (f : File) : (bare f).Unlabelled ↔ f.Unlabelled := by
  change (∀ m ∈ f.messages.map bare, m.Unlabelled) ↔ _
  rw [List.forall_mem_map]
  exact forall₂_congr fun m _ => m.unlabelled_bare_iff

/-! ## Conditions on trees -/

namespace Rule

variable {α β : Type} {r : Rule α} {P : β → Prop}

theorem satisfying_bind (f : α → Rule β) :
    (r >>= f).satisfying P = r >>= fun a => (f a).satisfying P := by
  funext w b
  refine propext ⟨?_, ?_⟩
  · rintro ⟨⟨u, v, a, rfl, hu, hv⟩, hb⟩
    exact ⟨u, v, a, rfl, hu, hv, hb⟩
  · rintro ⟨u, v, a, rfl, hu, hv, hb⟩
    exact ⟨⟨u, v, a, rfl, hu, hv⟩, hb⟩

/-- A condition on the whole that is one on its first part. -/
theorem satisfying_bind_left {Q : α → Prop} {f : α → Rule β}
    (h : ∀ a v b, f a v b → (P b ↔ Q a)) : (r >>= f).satisfying P = r.satisfying Q >>= f := by
  funext w b
  refine propext ⟨?_, ?_⟩
  · rintro ⟨⟨u, v, a, rfl, hu, hv⟩, hb⟩
    exact ⟨u, v, a, rfl, ⟨hu, (h a v b hv).1 hb⟩, hv⟩
  · rintro ⟨u, v, a, rfl, ⟨hu, ha⟩, hv⟩
    exact ⟨⟨u, v, a, rfl, hu, hv⟩, (h a v b hv).2 ha⟩

theorem satisfying_many (P : α → Prop) :
    (many r).satisfying (fun as => ∀ a ∈ as, P a) = many (r.satisfying P) := by
  funext w as
  refine propext ⟨?_, fun h => ?_⟩
  · rintro ⟨h, has⟩
    induction h with
    | nil => exact .nil
    | cons head _ ih =>
      obtain ⟨ha, has⟩ := List.forall_mem_cons.1 has
      exact .cons ⟨head, ha⟩ (ih has)
  · induction h with
    | nil => exact ⟨.nil, List.forall_mem_nil _⟩
    | cons head _ ih => exact ⟨.cons head.1 ih.1, List.forall_mem_cons.2 ⟨head.2, ih.2⟩⟩

theorem satisfying_notAt (P : α → Prop) (K : Kind → Prop) :
    (r.notAt K).satisfying P = (r.satisfying P).notAt K := by
  funext w a
  exact propext and_right_comm

theorem satisfying_satisfying (P Q : α → Prop) :
    (r.satisfying P).satisfying Q = (r.satisfying Q).satisfying P := by
  funext w a
  exact propext and_right_comm

/-- A condition that every step passes on to the rule inside. -/
theorem satisfying_nested {step strict : Rule α → Rule α} {P : α → Prop}
    (h : ∀ r, (step r).satisfying P = strict (r.satisfying P)) :
    (nested step).satisfying P = nested strict := by
  have hiterate (n : Nat) : (step^[n] nothing).satisfying P = strict^[n] nothing := by
    induction n with
    | zero =>
      funext w a
      exact false_and _
    | succ n ih => rw [Function.iterate_succ_apply', Function.iterate_succ_apply', h, ih]
  funext w a
  refine propext ⟨?_, ?_⟩
  · rintro ⟨⟨n, hn⟩, ha⟩
    exact ⟨n, hiterate n ▸ ⟨hn, ha⟩⟩
  · rintro ⟨n, hn⟩
    rw [← hiterate n] at hn
    exact ⟨⟨n, hn.1⟩, hn.2⟩

end Rule

/-! ## The plain grammar -/

namespace Grammar

open Rule

/-- A field of a group, without a label. -/
def plainField : Rule Field :=
  ((labelledField none).notAt fun k => (Parser.labelOf? k).isSome = true).notAt
    (· = .keyword .option)

def plainOneofItem : Rule OneofItem :=
  OneofItem.option <$> optionStatement <|> OneofItem.field <$> plainField

def plainOneof : Rule Oneof := do
  let _ ← keyword .oneof
  let name ← name
  let items ← body plainOneofItem
  return Oneof.ofItems name items

def plainMessageItem (inner : Rule Message) : Rule MessageItem :=
  MessageItem.message <$> inner
    <|> MessageItem.enum <$> enumDecl
    <|> MessageItem.oneof <$> plainOneof
    <|> MessageItem.extend <$> extend
    <|> MessageItem.option <$> optionStatement
    <|> MessageItem.extensions <$> extensionList
    <|> MessageItem.reserved <$> reserved
    <|> MessageItem.field <$> memberField

def plainMessageWith (inner : Rule Message) : Rule Message := do
  let _ ← keyword .message
  let name ← name
  let items ← body (plainMessageItem inner)
  return Message.ofItems name items

def plainMessage : Rule Message :=
  nested plainMessageWith

def plainFileItem : Rule FileItem :=
  (fun _ => FileItem.empty) <$> symbol .semicolon
    <|> FileItem.edition <$> edition
    <|> FileItem.package <$> package
    <|> FileItem.importItem <$> importStatement
    <|> FileItem.option <$> optionStatement
    <|> FileItem.enum <$> enumDecl
    <|> FileItem.message <$> plainMessage
    <|> FileItem.service <$> service
    <|> FileItem.extend <$> extend

/-- A file in which the fields of groups have no labels. -/
def plainFile : Rule File :=
  File.ofItems <$> (many plainFileItem).satisfying fun items =>
    editions items.tail = [] ∧ (packages items).length ≤ 1

/-! ## Items -/

def OneofItem.Unlabelled : OneofItem → Prop
  | .field f => f.label = none
  | .option _ => True

def MessageItem.Unlabelled : MessageItem → Prop
  | .message m => m.Unlabelled
  | .oneof o => o.Unlabelled
  | _ => True

def FileItem.Unlabelled : FileItem → Prop
  | .message m => m.Unlabelled
  | _ => True

theorem unlabelled_oneof_iff (name : Name) (items : List OneofItem) :
    (Oneof.ofItems name items).Unlabelled ↔ ∀ item ∈ items, item.Unlabelled := by
  rw [Oneof.Unlabelled, Oneof.ofItems, List.forall_mem_filterMap]
  refine forall₂_congr fun item _ => ?_
  cases item <;> simp [OneofItem.Unlabelled]

theorem unlabelled_message_iff (name : Name) (items : List MessageItem) :
    (Message.ofItems name items).Unlabelled ↔ ∀ item ∈ items, item.Unlabelled := by
  rw [Message.unlabelled_iff, Message.ofItems, List.forall_mem_filterMap, List.forall_mem_filterMap,
    ← forall₂_and]
  refine forall₂_congr fun item _ => ?_
  cases item <;> simp [MessageItem.Unlabelled]

theorem unlabelled_file_iff (items : List FileItem) :
    (File.ofItems items).Unlabelled ↔ ∀ item ∈ items, item.Unlabelled := by
  rw [File.Unlabelled, File.ofItems, List.forall_mem_filterMap]
  refine forall₂_congr fun item _ => ?_
  cases item <;> simp [FileItem.Unlabelled]

/-! ## Rules -/

/-- The first part of a field is its label. -/
theorem label_of_labelledField {label : Option FieldLabel} {w : List Token} {f : Field}
    (h : labelledField label w f) : f.label = label := by
  obtain ⟨_, _, _, rfl, -, _, _, _, rfl, -, _, _, _, rfl, -, _, _, _, rfl, -, _, _, _, rfl, -,
    _, _, _, rfl, -, -, rfl⟩ := h
  rfl

theorem satisfying_memberField :
    memberField.satisfying (fun f => f.label = none) = plainField := by
  rw [memberField, satisfying_notAt, field, satisfying_or, satisfying_notAt]
  funext w f
  refine propext ⟨?_, fun ⟨⟨h, hlabel⟩, hoption⟩ => ?_⟩
  · rintro ⟨⟨⟨_, _, label, rfl, -, hfield⟩, hnone⟩ | ⟨hfield, hlabel⟩, hoption⟩
    · rw [label_of_labelledField hfield] at hnone
      cases hnone
    · exact ⟨⟨hfield.1, hlabel⟩, hoption⟩
  · exact ⟨.inr ⟨⟨h, label_of_labelledField h⟩, hlabel⟩, hoption⟩

theorem satisfying_oneofItem : oneofItem.satisfying OneofItem.Unlabelled = plainOneofItem := by
  simp only [oneofItem, satisfying_or, satisfying_map, OneofItem.Unlabelled, satisfying_true,
    satisfying_memberField]
  rfl

theorem satisfying_body {ι : Type} (item : Rule ι) (P : ι → Prop) :
    (body item).satisfying (fun items => ∀ a ∈ items, P a) = body (item.satisfying P) := by
  have hentries : (many (some <$> item <|> (fun _ => none) <$> symbol .semicolon)).satisfying
      (fun entries => ∀ entry ∈ entries, ∀ a ∈ entry, P a) =
      many (some <$> item.satisfying P <|> (fun _ => none) <$> symbol .semicolon) := by
    rw [satisfying_many, satisfying_or, satisfying_map, satisfying_map]
    simp [satisfying_true]
  rw [body, satisfying_bind, body, ← hentries]
  congr 1
  funext _
  refine satisfying_bind_left ?_
  rintro entries _ _ ⟨_, _, _, rfl, -, -, rfl⟩
  exact List.forall_mem_filterMap

/-- A declaration with a body, and a condition on the items in it. -/
theorem satisfying_declaration {β ι : Type} {k : Keyword} {item : Rule ι} {P : β → Prop}
    {Q : ι → Prop} {f : Name → List ι → β} (h : ∀ n items, P (f n items) ↔ ∀ a ∈ items, Q a) :
    (do let _ ← keyword k; let n ← name; let items ← body item; return f n items :
        Rule β).satisfying P =
      (do let _ ← keyword k; let n ← name; let items ← body (item.satisfying Q)
          return f n items) := by
  rw [satisfying_bind, ← satisfying_body]
  congr 1
  funext _
  rw [satisfying_bind]
  congr 1
  funext n
  refine satisfying_bind_left ?_
  rintro items _ _ ⟨-, rfl⟩
  exact h n items

theorem satisfying_oneof : oneof.satisfying Oneof.Unlabelled = plainOneof := by
  rw [oneof, satisfying_declaration unlabelled_oneof_iff, satisfying_oneofItem]
  rfl

theorem satisfying_messageItem (inner : Rule Message) :
    (messageItem inner).satisfying MessageItem.Unlabelled =
      plainMessageItem (inner.satisfying Message.Unlabelled) := by
  simp only [messageItem, satisfying_or, satisfying_map, MessageItem.Unlabelled, satisfying_true,
    satisfying_oneof]
  rfl

theorem satisfying_message : message.satisfying Message.Unlabelled = plainMessage := by
  refine satisfying_nested fun inner => ?_
  rw [messageWith, satisfying_declaration unlabelled_message_iff, satisfying_messageItem]
  rfl

theorem satisfying_fileItem : fileItem.satisfying FileItem.Unlabelled = plainFileItem := by
  simp only [fileItem, satisfying_or, satisfying_map, FileItem.Unlabelled, satisfying_true,
    satisfying_message]
  rfl

/-- The trees of the plain grammar are those of the grammar without labels in groups. -/
theorem satisfying_file : file.satisfying File.Unlabelled = plainFile := by
  rw [file, satisfying_map, satisfying_satisfying]
  simp only [unlabelled_file_iff]
  rw [satisfying_many, satisfying_fileItem]
  rfl

/-! ## Groups with any fields -/

/-- A keyword, a name and items between braces. -/
theorem declaration_of_many {β ι : Type} {k : Keyword} {item : Rule ι} {g : Name → List ι → β}
    {t n o e : Token} {w : List Token} {items : List ι} (ht : t.kind = .keyword k)
    (hn : n.kind.isName = true) (ho : o.kind = .symbol .openBrace) (hitems : many item w items)
    (he : e.kind = .symbol .closeBrace) :
    (do let _ ← keyword k; let n ← name; let items ← body item; return g n items : Rule β)
      (t :: n :: o :: (w ++ [e])) (g ⟨n.value, nowhere⟩ items) := by
  have hname : name [n] ⟨n.value, nowhere⟩ := ⟨[n], [], _, rfl, ⟨n, rfl, hn, rfl⟩, rfl, rfl⟩
  have hbody : body item (o :: (w ++ [e])) items := by
    have hentries := many_map (s := some <$> item <|> (fun _ => none) <$> symbol .semicolon)
      (fun _ a ha => or_iff.2 (.inl ⟨a, ha, rfl⟩)) hitems
    refine ⟨[o], w ++ [e], _, rfl, ⟨o, rfl, ho, rfl⟩, ?_⟩
    exact bind_token_iff.2 ⟨w, items.map some, e, hentries, he, rfl, by simp⟩
  refine ⟨[t], _, _, rfl, ⟨t, rfl, ht, rfl⟩, [n], _, _, rfl, hname, ?_⟩
  exact ⟨_, [], items, (List.append_nil _).symm, hbody, rfl, rfl⟩

/-- A field with a label and without options. -/
theorem derives_labelled {k k' k'' : Kind} {label : Label} (word type name number : String)
    (hk : Parser.labelOf? k = some label) (hk' : k'.isName = true) (hk'' : k''.isName = true)
    (hnumber : (NumberLit.mk number nowhere).integer?.isSome = true) :
    Derives memberField
      [(k, word), (k', type), (k'', name), (.symbol .equals, "="), (.number, number),
        (.symbol .semicolon, ";")]
      ⟨some ⟨label, nowhere⟩, ⟨⟨type, nowhere⟩, [], nowhere⟩, ⟨name, nowhere⟩, ⟨number, nowhere⟩, [],
        nowhere⟩ := by
  have hlabel : Derives fieldLabel [(k, word)] ⟨label, nowhere⟩ := by
    intro us hus
    obtain ⟨t, rfl, ht⟩ := List.map_eq_singleton_iff.1 hus
    exact Parser.fieldLabel_iff.2 ⟨t, label, rfl, by rw [(Prod.mk.inj ht).1, hk], rfl⟩
  have hfield := hlabel.bind (f := fun label => labelledField (some label))
    (derives_labelledField _ type name number hk' hk'' hnumber)
  refine .notAt (.left hfield) ?_
  rintro rfl
  cases hk

/-- A file of one message with one group, and the group with any fields that may stand in a
message. -/
theorem file_of_members {head w tail : List Token} {fields : List Field}
    (hhead : head.map Token.kind = [.keyword .message, .identifier, .symbol .openBrace,
      .keyword .oneof, .identifier, .symbol .openBrace])
    (hfields : many memberField w fields)
    (htail : tail.map Token.kind = [.symbol .closeBrace, .symbol .closeBrace]) :
    ∃ tree, file (head ++ (w ++ tail)) tree ∧
      tree.messages.map (fun m => m.oneofs.map Oneof.fields) = [[fields]] := by
  simp only [List.map_eq_cons_iff, List.map_eq_nil_iff] at hhead htail
  obtain ⟨t, _, rfl, ht, n, _, rfl, hn, o, _, rfl, ho, t', _, rfl, ht', n', _, rfl, hn', o', _, rfl,
    ho', rfl⟩ := hhead
  obtain ⟨e', _, rfl, he', e, _, rfl, he, rfl⟩ := htail
  have honeof : oneof (t' :: n' :: o' :: (w ++ [e'])) _ :=
    declaration_of_many ht' (by rw [hn']; rfl) ho'
      (many_map (fun _ f hf => .inr ⟨f, hf, rfl⟩) hfields) he'
  have hitem : messageItem nothing _ (.oneof _) := .inr (.inr (.inl ⟨_, honeof, rfl⟩))
  have hmessage : message (t :: n :: o :: ((t' :: n' :: o' :: (w ++ [e'])) ++ [e])) _ :=
    ⟨1, declaration_of_many ht (by rw [hn]; rfl) ho (many_one hitem) he⟩
  have hstatement : fileItem _ (.message _) :=
    .inr (.inr (.inr (.inr (.inr (.inr (.inl ⟨_, hmessage, rfl⟩))))))
  refine ⟨_, ⟨_, ⟨by simpa using many_one hstatement, rfl, Nat.zero_le _⟩, rfl⟩, ?_⟩
  simp [File.ofItems, Message.ofItems, Oneof.ofItems, List.filterMap_map]

end Grammar

/-! ## Reading -/

/-- What is read without errors, and with no label on a field of a group, is what the plain grammar
derives.  But a group is read without errors whatever fields stand in it, labels included, that may
stand in a message. -/
theorem parse_unlabelled_iff (tokens : List Token) :
    (((parse tokens).errors = [] ∧ (parse tokens).file.Unlabelled) ↔
      ∃ tree, Grammar.plainFile (significant tokens) tree) ∧
    ∀ head w tail fields, significant tokens = head ++ (w ++ tail) →
      head.map Token.kind = [.keyword .message, .identifier, .symbol .openBrace,
        .keyword .oneof, .identifier, .symbol .openBrace] →
      Rule.many Grammar.memberField w fields →
      tail.map Token.kind = [.symbol .closeBrace, .symbol .closeBrace] →
      (parse tokens).errors = [] ∧
        (bare (parse tokens).file).messages.map (fun m => m.oneofs.map Oneof.fields) =
          [[fields]] := by
  refine ⟨?_, ?_⟩
  · rw [← Grammar.satisfying_file]
    constructor
    · rintro ⟨herrors, hunlabelled⟩
      exact ⟨_, derives_of_parse herrors, (File.unlabelled_bare_iff _).2 hunlabelled⟩
    · rintro ⟨tree, hderives, hunlabelled⟩
      obtain ⟨herrors, rfl⟩ := parse_of_derives hderives
      exact ⟨herrors, (File.unlabelled_bare_iff _).1 hunlabelled⟩
  · intro head w tail fields hword hhead hfields htail
    obtain ⟨tree, hderives, htree⟩ := Grammar.file_of_members hhead hfields htail
    obtain ⟨herrors, rfl⟩ := parse_of_derives (hword.symm ▸ hderives)
    exact ⟨herrors, htree⟩

/-- A group of two fields with labels, which the plain grammar does not derive. -/
theorem parse_unlabelled_iff_labels :
    let tokens := (tokenize
      "message M \x7b oneof o \x7b repeated int32 a = 1; required bool b = 2; \x7d \x7d").tokens
    (parse tokens).errors = [] ∧ ¬∃ tree, Grammar.plainFile (significant tokens) tree := by
  intro tokens
  let head := (significant tokens).take 6
  let first := ((significant tokens).drop 6).take 6
  let second := ((significant tokens).drop 12).take 6
  let tail := (significant tokens).drop 18
  let written (k : Keyword) (type name number : String) : List (Kind × String) :=
    [(.keyword k, k.spelling), (.identifier, type), (.identifier, name), (.symbol .equals, "="),
      (.number, number), (.symbol .semicolon, ";")]
  let field (label : Label) (type name number : String) : Field :=
    ⟨some ⟨label, nowhere⟩, ⟨⟨type, nowhere⟩, [], nowhere⟩, ⟨name, nowhere⟩, ⟨number, nowhere⟩, [],
      nowhere⟩
  obtain ⟨hword, hhead, hfirst, hsecond, htail⟩ :
      significant tokens = head ++ ((first ++ (second ++ [])) ++ tail) ∧
      head.map Token.kind = [.keyword .message, .identifier, .symbol .openBrace, .keyword .oneof,
        .identifier, .symbol .openBrace] ∧
      first.map (fun t => (t.kind, t.value)) = written .repeated "int32" "a" "1" ∧
      second.map (fun t => (t.kind, t.value)) = written .required "bool" "b" "2" ∧
      tail.map Token.kind = [.symbol .closeBrace, .symbol .closeBrace] := by
    decide +kernel
  have hrepeated : Derives Grammar.memberField (written .repeated "int32" "a" "1")
      (field .repeated "int32" "a" "1") :=
    Grammar.derives_labelled _ _ _ _ rfl rfl rfl (by decide +kernel)
  have hrequired : Derives Grammar.memberField (written .required "bool" "b" "2")
      (field .required "bool" "b" "2") :=
    Grammar.derives_labelled _ _ _ _ rfl rfl rfl (by decide +kernel)
  have hfields : Rule.many Grammar.memberField (first ++ (second ++ []))
      [field .repeated "int32" "a" "1", field .required "bool" "b" "2"] :=
    .cons (hrepeated first hfirst) (.cons (hrequired second hsecond) .nil)
  obtain ⟨hiff, hany⟩ := parse_unlabelled_iff tokens
  obtain ⟨herrors, htree⟩ := hany head _ tail _ hword hhead hfields htail
  refine ⟨herrors, fun hplain => ?_⟩
  have hunlabelled := (File.unlabelled_bare_iff _).2 (hiff.2 hplain).2
  obtain ⟨m, hm, honeofs⟩ := List.mem_map.1 (htree ▸ List.mem_singleton_self _)
  obtain ⟨o, ho, hmembers⟩ := List.mem_map.1 (honeofs ▸ List.mem_singleton_self _)
  have hlabel := (m.unlabelled_iff.1 (hunlabelled m hm)).1 o ho _ (hmembers ▸ List.mem_cons_self)
  cases hlabel

/-- A label in a group is not reported. -/
theorem label_in_group_accepted :
    let scan := tokenize "message M \x7b oneof o \x7b repeated int32 a = 1; \x7d \x7d"
    scan.errors = [] ∧ (parse scan.tokens).errors = [] ∧
      (parse scan.tokens).file.messages.map (fun m => m.oneofs.map fun o => o.fields.map fun f =>
        f.label?.map Listing.labelWord) = [[[some "repeated"]]] := by
  decide +kernel

end ProtoDecl.Schema
