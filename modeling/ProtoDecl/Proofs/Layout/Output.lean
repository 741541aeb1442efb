import ProtoDecl.Descriptor.Wire
import ProtoDecl.Proofs.Layout.Parse
import ProtoDecl.TypeScript.Generate

/-!
# Layout does not change the output

Neither the TypeScript declarations of a file nor its descriptor depend on where anything stands:
every function that writes one reads the same from a node and from what is seen of it, under every
sight.  The two recursions over messages are the only ones with an induction of their own; all other
functions take their input apart in one step.

With the eyes that see no spans, reading and writing go together: files that are written alike,
apart from layout, have the same tree, the same errors, the same declarations and the same bytes
(`parse_layout_irrelevant`).
-/

namespace ProtoDecl

open Schema

variable {S : Sight} {α β : Type} [Seen α]

/-! ## Lists -/

namespace Schema

theorem seen_list (S : Sight) (as : List α) : seen S as = as.map (seen S) :=
  rfl

@[simp] theorem length_seen (as : List α) : (seen S as).length = as.length :=
  List.length_map _

@[simp] theorem isEmpty_seen (as : List α) : (seen S as).isEmpty = as.isEmpty := by
  cases as <;> rfl

theorem map_seen {f : α → β} (h : ∀ a, f (seen S a) = f a) (as : List α) :
    (seen S as).map f = as.map f := by
  rw [seen_list, List.map_map]
  exact List.map_congr_left fun a _ => h a

theorem filterMap_seen {f : α → Option β} (h : ∀ a, f (seen S a) = f a) (as : List α) :
    (seen S as).filterMap f = as.filterMap f := by
  rw [seen_list, List.filterMap_map]
  exact congrArg (List.filterMap · as) (funext h)

theorem flatMap_seen {f : α → List β} (h : ∀ a, f (seen S a) = f a) (as : List α) :
    (seen S as).flatMap f = as.flatMap f := by
  rw [seen_list, List.flatMap_map]
  exact congrArg as.flatMap (funext h)

theorem foldl_seen {f : β → α → β} (h : ∀ b a, f b (seen S a) = f b a) (as : List α) (b : β) :
    (seen S as).foldl f b = as.foldl f b := by
  rw [seen_list, List.foldl_map]
  simp only [h]

theorem map_option_seen {f : α → β} (h : ∀ a, f (seen S a) = f a) (o : Option α) :
    (seen S o).map f = o.map f := by
  cases o with
  | none => rfl
  | some a => rw [seen_some, Option.map_some, Option.map_some, h]

/-! ## Errors -/

theorem describe_seen (t : Token) : (S.token t).describe = t.describe := by
  unfold Token.describe
  rw [S.token_kind]
  split
  · rename_i hk
    rw [S.token_value t (by simp [hk])]
  · rename_i hk
    rw [S.token_value t (by simp [hk])]
  · rename_i hk
    rw [S.token_value t (by simp [hk])]
  · rfl

theorem message_seen (e : SyntaxError) : (seen S e).message = e.message := by
  cases e with
  | unexpected wanted found =>
    exact congrArg (wanted.text ++ ", found " ++ ·) (describe_seen found)
  | _ => rfl

theorem expected_seen (e : SyntaxError) : (seen S e).expected = e.expected := by
  cases e <;> rfl

/-! ## Fields -/

@[simp] theorem name_text_seen (n : Name) : (seen S n).text = n.text :=
  rfl

@[simp] theorem label?_seen (f : Field) : (seen S f).label? = f.label? := by
  rw [Field.seen_eq, Field.label?, Field.label?]
  exact map_option_seen (fun _ => rfl) f.label

theorem option?_seen (f : Field) (name : String) :
    (seen S f).option? name = seen S (f.option? name) := by
  have hfind : (seen S f.options).find? (fun o => o.name.text == name) =
      seen S (f.options.find? fun o => o.name.text == name) := by
    rw [seen_list, List.find?_map]
    rfl
  rw [Field.option?, Field.seen_eq, hfind, Field.option?]
  cases f.options.find? fun o => o.name.text == name <;> rfl

@[simp] theorem hasNested_seen (m : Message) : (seen S m).hasNested = m.hasNested := by
  simp only [Message.seen_eq, Message.hasNested, isEmpty_seen]

@[simp] theorem isMap_seen (t : FieldType) : (seen S t).isMap = t.isMap := by
  rw [FieldType.seen_eq, FieldType.isMap, FieldType.isMap, isEmpty_seen, name_text_seen]

end Schema

/-! ## TypeScript -/

namespace TypeScript

@[simp] theorem typeOf_seen (t : FieldType) : typeOf (seen S t) = typeOf t := by
  fun_induction typeOf t with
  | case1 name span hname key value ihkey ihvalue =>
    rw [FieldType.seen_eq, seen_cons, seen_cons, seen_nil, typeOf, ihkey, ihvalue]
    exact if_pos hname
  | case2 name arguments span hname hpair =>
    rw [FieldType.seen_eq, typeOf]
    · exact if_pos hname
    · intro key value h
      match arguments, hpair, h with
      | [key', value'], hpair, _ => exact hpair key' value' rfl
  | case3 name arguments span hname type htype =>
    rw [FieldType.seen_eq]
    unfold typeOf
    simp only [name_text_seen, if_neg hname, htype]
  | case4 name arguments span hname htype =>
    rw [FieldType.seen_eq]
    unfold typeOf
    simp only [name_text_seen, if_neg hname, htype]

theorem ofField_seen (alwaysOptional : Bool) (f : Field) :
    Member.ofField alwaysOptional (seen S f) = Member.ofField alwaysOptional f := by
  simp only [Member.ofField, label?_seen]
  simp [Field.seen_eq]

theorem oneof_fields_seen (os : List Oneof) :
    (seen S os).flatMap Oneof.fields = seen S (os.flatMap Oneof.fields) := by
  rw [seen_list, List.flatMap_map, seen_list, List.map_flatMap]
  rfl

theorem members_seen (m : Message) : members (seen S m) = members m := by
  rw [members, members, Message.seen_eq, map_seen (ofField_seen false), oneof_fields_seen,
    map_seen (ofField_seen true)]

theorem aliases_seen (taken : List String) (imports : List Import) :
    aliases taken (seen S imports) = aliases taken imports := by
  induction imports generalizing taken with
  | nil => rfl
  | cons i rest ih =>
    rw [seen_cons, Import.seen_eq, aliases, aliases]
    simp only [ih]
    rfl

theorem importLines_seen (resolve : String → String) (imports : List Import) :
    importLines resolve (seen S imports) = importLines resolve imports := by
  rw [importLines, importLines, aliases_seen, seen_list, List.zipWith_map_left]
  rfl

theorem writeEnum_seen (w : Writer) (e : EnumDecl) : writeEnum w (seen S e) = writeEnum w e := by
  rw [writeEnum, writeEnum, EnumDecl.seen_eq, map_seen fun _ => rfl]
  rfl

theorem writeExtend_seen (w : Writer) (e : Extend) :
    writeExtend w (seen S e) = writeExtend w e := by
  rw [writeExtend, writeExtend, extendMembers, extendMembers, Extend.seen_eq,
    map_seen (ofField_seen true)]
  rfl

theorem writeService_seen (w : Writer) (s : Service) :
    writeService w (seen S s) = writeService w s := by
  rw [writeService, writeService, Service.seen_eq, map_seen fun _ => rfl]
  rfl

theorem writeInterface_seen (w : Writer) (m : Message) :
    writeInterface w (seen S m) = writeInterface w m := by
  rw [writeInterface, writeInterface, members_seen, Message.seen_eq]
  rfl

mutual

theorem writeMessage_seen (w : Writer) (m : Message) :
    writeMessage w (seen S m) = writeMessage w m := by
  have hinterface := writeInterface_seen (S := S) w m
  have hnested := hasNested_seen (S := S) m
  rw [Message.seen_eq] at hinterface hnested ⊢
  cases m with
  | mk name fields oneofs enums messages extendBlocks reserved extensions options span =>
    rw [writeMessage, writeMessage, hinterface, hnested]
    simp only [foldl_seen writeEnum_seen, foldl_seen writeExtend_seen,
      writeMessages_seen _ messages, name_text_seen]

theorem writeMessages_seen (w : Writer) (ms : List Message) :
    writeMessages w (seen S ms) = writeMessages w ms := by
  cases ms with
  | nil => rfl
  | cons m rest =>
    rw [seen_cons, writeMessages, writeMessages, writeMessage_seen w m, writeMessages_seen _ rest]

end

/-- What is written of a file does not depend on where anything stands. -/
theorem generate_seen (f : File) (o : Options) : generate (seen S f) o = generate f o := by
  have himports (w : Writer) :
      writeImports o.resolve (seen S f.imports) w = writeImports o.resolve f.imports w := by
    rw [writeImports, writeImports, isEmpty_seen, importLines_seen]
  rw [generate, generate, writeFile, writeFile, File.seen_eq]
  simp only [himports, foldl_seen writeEnum_seen, writeMessages_seen, foldl_seen writeExtend_seen,
    foldl_seen writeService_seen]

end TypeScript

/-! ## Descriptors -/

namespace Descriptor

theorem ofRange_seen (r : NumberRange) : ofRange (seen S r) = ofRange r := by
  obtain ⟨first, last, span⟩ := r
  cases last <;> rfl

theorem ofEnumRange_seen (r : NumberRange) : ofEnumRange (seen S r) = ofEnumRange r := by
  obtain ⟨first, last, span⟩ := r
  cases last <;> rfl

theorem flagOption_seen (f : Field) (name : String) :
    flagOption (seen S f) name = flagOption f name := by
  rw [flagOption, flagOption, option?_seen]
  rcases f.option? name with _ | value
  · rfl
  · cases value <;> rfl

theorem textOption_seen (f : Field) (name : String) :
    textOption (seen S f) name = textOption f name := by
  rw [textOption, textOption, option?_seen]
  rcases f.option? name with _ | value
  · rfl
  · cases value <;> rfl

theorem constantText_seen (value : Constant) :
    constantText (seen S value) = constantText value := by
  cases value <;> rfl

theorem entryField_seen (name : String) (number : Int32) (type : FieldType) :
    entryField name number (seen S type) = entryField name number type := by
  rw [FieldType.seen_eq]
  rfl

theorem entryOf?_seen (f : Field) : entryOf? (seen S f) = entryOf? f := by
  have hentry : mapEntry (seen S f) = mapEntry f := by
    rw [mapEntry, mapEntry, Field.seen_eq, FieldType.seen_eq]
    simp only [seen_list, List.zipWith_map_right, entryField_seen]
    rfl
  rw [entryOf?, entryOf?, hentry, Field.seen_eq, isMap_seen]

theorem ofField_seen (f : Field) : ofField (seen S f) = ofField f := by
  have hdefault : ((seen S f).option? "default").map constantText =
      (f.option? "default").map constantText := by
    rw [option?_seen, map_option_seen constantText_seen]
  have hoptions : fieldOptions (seen S f) = fieldOptions f := by
    rw [fieldOptions, fieldOptions, flagOption_seen, flagOption_seen]
  rw [ofField, ofField, hdefault, hoptions, textOption_seen, label?_seen, Field.seen_eq]
  simp only [isMap_seen]
  rw [FieldType.seen_eq]
  rfl

theorem ofExtend_seen (e : Extend) : ofExtend (seen S e) = ofExtend e := by
  rw [ofExtend, ofExtend, Extend.seen_eq]
  exact map_seen (fun f => by rw [ofField_seen]) e.fields

theorem tracksPresence_seen (version3 : Bool) (f : Field) :
    tracksPresence version3 (seen S f) = tracksPresence version3 f := by
  rw [tracksPresence, tracksPresence, label?_seen]

theorem ofPlainFields_seen (version3 : Bool) (index : Nat) (fields : List Field) :
    ofPlainFields version3 index (seen S fields) = ofPlainFields version3 index fields := by
  induction fields generalizing index with
  | nil => rfl
  | cons f rest ih =>
    rw [seen_cons, ofPlainFields, ofPlainFields, tracksPresence_seen, ofField_seen, ih, ih]

theorem ofOneofs_seen (index : Nat) (os : List Oneof) :
    ofOneofs index (seen S os) = ofOneofs index os := by
  induction os generalizing index with
  | nil => rfl
  | cons o rest ih =>
    rw [seen_cons, ofOneofs, ofOneofs, ih, Oneof.seen_eq]
    congr 1
    exact map_seen (fun f => by rw [ofField_seen]) o.fields

theorem oneofNames_seen (version3 : Bool) (m : Message) :
    oneofNames version3 (seen S m) = oneofNames version3 m := by
  have hfilter : (seen S m.fields).filter (tracksPresence version3) =
      seen S (m.fields.filter (tracksPresence version3)) := by
    rw [seen_list, List.filter_map]
    exact congrArg (fun p => (m.fields.filter p).map (seen S))
      (funext fun f => tracksPresence_seen version3 f)
  rw [oneofNames, oneofNames, Message.seen_eq]
  simp only [hfilter, map_seen (S := S) (f := fun o : Oneof => o.name.text) (fun _ => rfl)]
  congr 1
  exact map_seen (fun _ => rfl) _

theorem reservedItems_seen (lists : List Reserved) :
    reservedItems (seen S lists) = seen S (reservedItems lists) := by
  rw [reservedItems, reservedItems, seen_list, List.flatMap_map, seen_list, List.map_flatMap]
  rfl

theorem reservedNames_seen (lists : List Reserved) :
    reservedNames (seen S lists) = reservedNames lists := by
  rw [reservedNames, reservedNames, reservedItems_seen]
  exact filterMap_seen (fun item => by cases item <;> rfl) _

theorem reservedRanges_seen (lists : List Reserved) :
    reservedRanges (seen S lists) = reservedRanges lists := by
  rw [reservedRanges, reservedRanges, reservedItems_seen]
  refine filterMap_seen (fun item => ?_) _
  cases item with
  | range r => exact congrArg some (ofRange_seen r)
  | _ => rfl

theorem enumReservedRanges_seen (lists : List Reserved) :
    enumReservedRanges (seen S lists) = enumReservedRanges lists := by
  rw [enumReservedRanges, enumReservedRanges, reservedItems_seen]
  refine filterMap_seen (fun item => ?_) _
  cases item with
  | range r => exact congrArg some (ofEnumRange_seen r)
  | _ => rfl

theorem extensionRanges_seen (e : Option Extensions) :
    extensionRanges (seen S e) = extensionRanges e := by
  rcases e with _ | e
  · rfl
  · simp only [extensionRanges, seen_some, Option.toList_some, List.flatMap_singleton,
      Extensions.seen_eq]
    refine map_seen (fun range => ?_) e.ranges
    cases range with
    | number n => rfl
    | range r => exact ofRange_seen r

theorem ofEnum_seen (e : EnumDecl) : ofEnum (seen S e) = ofEnum e := by
  rw [ofEnum, ofEnum, EnumDecl.seen_eq]
  simp only [enumReservedRanges_seen, reservedNames_seen,
    map_seen (S := S) (f := fun v : EnumValue => (⟨v.name.text, ofNumber v.number⟩ :
      EnumValueDescriptor)) fun _ => rfl]
  rfl

theorem allFields_seen (m : Message) : allFields (seen S m) = seen S (allFields m) := by
  rw [allFields, allFields, seen_append, Message.seen_eq, TypeScript.oneof_fields_seen]

mutual

theorem ofMessage_seen (version3 : Bool) (m : Message) :
    ofMessage version3 (seen S m) = ofMessage version3 m := by
  have hnames := oneofNames_seen (S := S) version3 m
  have hfields := allFields_seen (S := S) m
  rw [Message.seen_eq] at hnames hfields ⊢
  cases m with
  | mk name fields oneofs enums messages extendBlocks reserved extensions options span =>
    rw [ofMessage, ofMessage, hnames, hfields]
    simp only [length_seen, ofPlainFields_seen, ofOneofs_seen, filterMap_seen entryOf?_seen,
      ofMessages_seen version3 messages, map_seen ofEnum_seen, extensionRanges_seen,
      flatMap_seen ofExtend_seen, reservedRanges_seen, reservedNames_seen, name_text_seen]

theorem ofMessages_seen (version3 : Bool) (ms : List Message) :
    ofMessages version3 (seen S ms) = ofMessages version3 ms := by
  cases ms with
  | nil => rfl
  | cons m rest =>
    rw [seen_cons, ofMessages, ofMessages, ofMessage_seen version3 m, ofMessages_seen version3 rest]

end

theorem ofService_seen (s : Service) : ofService (seen S s) = ofService s := by
  rw [ofService, ofService, Service.seen_eq, map_seen fun _ => rfl]
  rfl

theorem placesOf_seen (modifier : ImportModifier) (imports : List Import) :
    placesOf modifier (seen S imports) = placesOf modifier imports := by
  rw [placesOf, placesOf, seen_list, List.zipIdx_map, List.filterMap_map]
  rfl

/-- The descriptor of a file does not depend on where anything stands. -/
theorem ofFile_seen (f : File) (name : String) : ofFile (seen S f) name = ofFile f name := by
  have hedition : (seen S f.edition).map (fun e => e.version.value) =
      f.edition.map fun e => e.version.value :=
    map_option_seen (fun _ => rfl) f.edition
  have hpackage : (seen S f.package).map (fun p => p.name.text) =
      f.package.map fun p => p.name.text :=
    map_option_seen (fun _ => rfl) f.package
  have himports : (seen S f.imports).map (fun i => i.path.value) =
      f.imports.map fun i => i.path.value :=
    map_seen (fun _ => rfl) f.imports
  rw [ofFile, ofFile, isVersion3, isVersion3, File.seen_eq]
  simp only [hedition, hpackage, himports, ofMessages_seen, map_seen ofEnum_seen,
    map_seen ofService_seen, flatMap_seen ofExtend_seen, placesOf_seen]

end Descriptor

/-! ## Layout -/

namespace Schema

/-- Lists whose significant tokens have the same kinds and values look alike to eyes that see no
spans. -/
theorem textual_eq {ts ts' : List Token}
    (h : ts.map (fun t => (t.kind, t.value)) = ts'.map fun t => (t.kind, t.value)) :
    ts.map Sight.textual.token = ts'.map Sight.textual.token := by
  have hpair := congrArg (List.map fun p : Kind × String =>
    (⟨p.1, if p.1 = .endOfFile then "" else p.2, nowhere⟩ : Token)) h
  rwa [List.map_map, List.map_map] at hpair

theorem textual_close (t u : Token) (ht : t.kind = .endOfFile) (hu : u.kind = .endOfFile) :
    Sight.textual.token t = Sight.textual.token u := by
  simp [Sight.textual, ht, hu]

theorem closeOf_kind (ts : List Token) : (closeOf ts).kind = .endOfFile := by
  rw [← Cursor.eof_ofTokens]
  exact Cursor.eof_kind _

/-- Layout never changes meaning: what is read from a list of tokens depends only on the kinds and
values of the tokens that matter, wherever they stand.  The tree is the same apart from positions,
so are the errors, and what is written of the file is the same altogether. -/
theorem parse_layout_irrelevant {ts ts' : List Token}
    (h : (significant ts).map (fun t => (t.kind, t.value)) =
      (significant ts').map fun t => (t.kind, t.value)) :
    bare (parse ts).file = bare (parse ts').file ∧
      (parse ts).errors.map (fun e => (e.message, e.expected)) =
        (parse ts').errors.map (fun e => (e.message, e.expected)) ∧
      (∀ o, TypeScript.generate (parse ts).file o = TypeScript.generate (parse ts').file o) ∧
      ∀ name, Descriptor.encodeSet (parse ts).file name =
        Descriptor.encodeSet (parse ts').file name := by
  obtain ⟨hfile, herrors⟩ := seen_parse (textual_eq h)
    (textual_close _ _ (closeOf_kind ts) (closeOf_kind ts'))
  have hshown (e : SyntaxError) : ((bare e).message, (bare e).expected) =
      (e.message, e.expected) := by
    rw [message_seen, expected_seen]
  refine ⟨hfile, ?_, fun o => ?_, fun name => ?_⟩
  · rw [← map_seen hshown, herrors, map_seen hshown]
  · rw [← TypeScript.generate_seen (S := .textual), hfile, TypeScript.generate_seen]
  · rw [Descriptor.encodeSet, ← Descriptor.ofFile_seen (S := .textual), hfile,
      Descriptor.ofFile_seen]
    rfl

/-- An enum on one line, and one with a comment inside and a brace missing at a place of its own:
wherever the tokens stand, they are read and written alike. -/
theorem parse_layout_enum :
    let near : List Token := [⟨.keyword .enum, "enum", ⟨1, 1, 0, 4⟩⟩,
      ⟨.identifier, "E", ⟨1, 6, 5, 6⟩⟩, ⟨.symbol .openBrace, "\x7b", ⟨1, 8, 7, 8⟩⟩,
      ⟨.endOfFile, "", ⟨1, 9, 8, 8⟩⟩]
    let far : List Token := [⟨.keyword .enum, "enum", ⟨7, 3, 90, 94⟩⟩,
      ⟨.comment, "// E", ⟨7, 8, 95, 99⟩⟩, ⟨.identifier, "E", ⟨2, 1, 10, 11⟩⟩,
      ⟨.symbol .openBrace, "\x7b", ⟨9, 9, 50, 51⟩⟩, ⟨.endOfFile, "end", ⟨3, 1, 30, 30⟩⟩]
    (significant near).map (fun t => (t.kind, t.value)) =
        (significant far).map (fun t => (t.kind, t.value)) ∧
      near.map Token.span ≠ (significant far).map Token.span ∧
      TypeScript.generate (parse near).file {} = TypeScript.generate (parse far).file {} :=
  ⟨by decide, by decide, (parse_layout_irrelevant (by decide)).2.2.1 {}⟩

end Schema

end ProtoDecl
