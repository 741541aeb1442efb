import ProtoDecl.Proofs.Output.Blocks

/-!
# Members and fields

The declarations of a file and its descriptor describe the same members.  For every message, at
whatever depth, the lines of its interface and the fields of its descriptor stand in the same order,
and agree in names, types and labels place by place; likewise the extensions.

* `messageAt?` and `descriptorAt?` find a message and its descriptor by the places on the way to it.
  The messages that stand for entries of maps are not counted.
* `Describes` and `Agrees` say how the line of a member reads, and what it has in common with the
  descriptor of the field.
* `Aligned` lifts this to lists.
* `Occurs` finds a block in the output.

`members_agree` puts these together.
-/

namespace ProtoDecl.TypeScript

open Schema Descriptor

/-! ## One field -/

/-- How a scalar is written in TypeScript. -/
def scalarText : Scalar → String
  | .double | .float | .int32 | .int64 | .uint32 | .uint64 | .sint32 | .sint64 => "number"
  | .fixed32 | .fixed64 | .sfixed32 | .sfixed64 => "number"
  | .bool => "boolean"
  | .string => "string"
  | .bytes => "Uint8Array"

theorem ofScalar_eq_scalarText (s : Scalar) : ofScalar s = scalarText s := by
  cases s <;> rfl

/-- Whether the line of a member and a descriptor give the field the same name and the same type. -/
structure Describes (f : Field) (mem : Member) (line : String) (d : FieldDescriptor) : Prop where
  /-- The line is the name, with a question mark if the member may be missing, the type, and
  brackets if there may be several. -/
  text : line = mem.name ++ (if mem.isOptional then "?" else "") ++ ": " ++ mem.type ++
    (if mem.isArray then "[]" else "") ++ ";"
  name : mem.name = d.name
  scalar : ∀ s, d.type = some (.scalar s) → mem.type = scalarText s
  /-- A declared type is the same name, but for a leading dot. -/
  declared : d.type = none → f.type.name.text ≠ "map" → ∃ t, d.typeName = some t ∧
    (t = "." ++ mem.type ∨ t.toList.head? ≠ some '.' ∧ t = mem.type)

/-- Whether the line of a member and a descriptor agree on all of a field of a message. -/
structure Agrees (version3 : Bool) (f : Field) (mem : Member) (line : String)
    (d : FieldDescriptor) : Prop extends Describes f mem line d where
  /-- Brackets come from a label. -/
  array : mem.isArray = true ↔ f.label? = some .repeated
  repeated : d.label.code = 3 ↔ mem.isArray = true ∨ f.type.isMap = true
  presence : version3 = true → (mem.isOptional = true ↔ d.oneofIndex.isSome = true)

theorem reference_cases (t : String) :
    t = "." ++ reference t ∨ t.toList.head? ≠ some '.' ∧ t = reference t := by
  unfold reference Text.dropStart?
  by_cases hdot : ['.'].isPrefixOf t.toList = true
  · obtain ⟨rest, hrest⟩ := List.isPrefixOf_iff_prefix.1 hdot
    refine .inl ?_
    rw [if_pos hdot, ← String.toList_inj, ← hrest]
    simp
  · refine .inr ⟨fun hhead => hdot ?_, ?_⟩
    · obtain ⟨rest, hrest⟩ := List.head?_eq_some_iff.1 hhead
      rw [hrest]
      rfl
    · rw [if_neg hdot]

/-- The type of a member, unless it is a map. -/
theorem typeOf_of_ne_map {t : FieldType} (h : t.name.text ≠ "map") :
    typeOf t = (scalarType? t.name.text).getD (reference t.name.text) := by
  cases t
  unfold typeOf
  rw [if_neg h]
  cases scalarType? _ <;> rfl

theorem typeOf_of_scalarCode? {t : FieldType} {s : Scalar}
    (h : scalarCode? t.name.text = some (.scalar s)) : typeOf t = scalarText s := by
  obtain ⟨s', hs', heq⟩ := Option.map_eq_some_iff.1 h
  cases heq
  have hmap : t.name.text ≠ "map" := by
    intro hmap
    have hnone : Scalar.ofName? "map" = none := by decide
    rw [hmap, hnone] at hs'
    cases hs'
  rw [typeOf_of_ne_map hmap, scalarType?, hs']
  exact ofScalar_eq_scalarText s

theorem typeOf_of_declared {t : FieldType} (h : scalarCode? t.name.text = none)
    (hmap : t.name.text ≠ "map") :
    typeOf t = reference t.name.text ∧ typeName? t.name.text = some t.name.text := by
  have hname : Scalar.ofName? t.name.text = none := Option.map_eq_none_iff.1 h
  rw [typeOf_of_ne_map hmap, scalarType?, typeName?, hname]
  exact ⟨rfl, rfl⟩

/-- The member and the descriptor of a field describe it alike, whatever else is recorded of it. -/
theorem describes_of_eq {always : Bool} {f : Field} {d : FieldDescriptor}
    (hname : d.name = (ofField f).name) (htype : d.type = (ofField f).type)
    (htypeName : d.typeName = (ofField f).typeName) :
    Describes f (Member.ofField always f) (memberLine (Member.ofField always f)) d where
  text := rfl
  name := hname.symm
  scalar := fun s hs => by
    rw [htype, ofField] at hs
    dsimp only at hs
    split at hs
    · cases hs
    · exact typeOf_of_scalarCode? hs
  declared := fun hnone hmap => by
    rw [htype, ofField] at hnone
    dsimp only at hnone
    split at hnone
    · cases hnone
    · rename_i hisMap
      obtain ⟨hmember, hdescriptor⟩ := typeOf_of_declared hnone hmap
      refine ⟨f.type.name.text, ?_, ?_⟩
      · rw [htypeName, ofField]
        dsimp only
        rw [if_neg hisMap, hdescriptor]
      · change _ = "." ++ typeOf f.type ∨ _ ∧ _ = typeOf f.type
        rw [hmember]
        exact reference_cases f.type.name.text

/-- A field is repeated if it is labelled so, or is a map. -/
theorem repeated_iff (always : Bool) (f : Field) :
    (ofField f).label.code = 3 ↔ (Member.ofField always f).isArray = true ∨ f.type.isMap = true := by
  rw [ofField, Member.ofField]
  dsimp only
  by_cases hmap : f.type.isMap = true
  · rw [if_pos hmap]
    exact iff_of_true rfl (.inr hmap)
  · rw [if_neg hmap, or_iff_left hmap]
    cases f.label? with
    | none => decide
    | some label => cases label <;> decide

theorem agrees_of_eq {version3 always : Bool} {f : Field} {d : FieldDescriptor}
    (hname : d.name = (ofField f).name) (htype : d.type = (ofField f).type)
    (htypeName : d.typeName = (ofField f).typeName) (hlabel : d.label = (ofField f).label)
    (hpresence : version3 = true →
      ((Member.ofField always f).isOptional = true ↔ d.oneofIndex.isSome = true)) :
    Agrees version3 f (Member.ofField always f) (memberLine (Member.ofField always f)) d where
  toDescribes := describes_of_eq hname htype htypeName
  array := beq_iff_eq
  repeated := hlabel ▸ repeated_iff always f
  presence := hpresence

/-! ## Lists of fields -/

/-- Whether fields, members, the lines of an interface and descriptors stand side by side, and a
relation holds in every place. -/
structure Aligned (R : Field → Member → String → FieldDescriptor → Prop) (fs : List Field)
    (mems : List Member) (lines : List String) (ds : List FieldDescriptor) : Prop where
  length_members : mems.length = fs.length
  length_lines : lines.length = fs.length
  length_descriptors : ds.length = fs.length
  each : ∀ (i : Nat) f mem line d, fs[i]? = some f → mems[i]? = some mem → lines[i]? = some line →
    ds[i]? = some d → R f mem line d

section Aligned

variable {R : Field → Member → String → FieldDescriptor → Prop} {fs fs' : List Field}
  {mems mems' : List Member} {lines lines' : List String} {ds ds' : List FieldDescriptor}

theorem aligned_nil : Aligned R [] [] [] [] where
  length_members := rfl
  length_lines := rfl
  length_descriptors := rfl
  each := fun i f mem line d hf => by simp at hf

theorem aligned_append (h : Aligned R fs mems lines ds) (h' : Aligned R fs' mems' lines' ds') :
    Aligned R (fs ++ fs') (mems ++ mems') (lines ++ lines') (ds ++ ds') where
  length_members := by
    rw [List.length_append, List.length_append, h.length_members, h'.length_members]
  length_lines := by
    rw [List.length_append, List.length_append, h.length_lines, h'.length_lines]
  length_descriptors := by
    rw [List.length_append, List.length_append, h.length_descriptors, h'.length_descriptors]
  each := fun i f mem line d hf hmem hline hd => by
    have hmems := h.length_members
    have hlines := h.length_lines
    have hds := h.length_descriptors
    by_cases hi : i < fs.length
    · rw [List.getElem?_append_left hi] at hf
      rw [List.getElem?_append_left (by omega)] at hmem hline hd
      exact h.each i f mem line d hf hmem hline hd
    · rw [List.getElem?_append_right (by omega)] at hf hmem hline hd
      rw [hmems] at hmem
      rw [hlines] at hline
      rw [hds] at hd
      exact h'.each (i - fs.length) f mem line d hf hmem hline hd

theorem aligned_cons {f : Field} {mem : Member} {line : String} {d : FieldDescriptor}
    (hR : R f mem line d) (h : Aligned R fs mems lines ds) :
    Aligned R (f :: fs) (mem :: mems) (line :: lines) (d :: ds) := by
  have hsingle : Aligned R [f] [mem] [line] [d] := by
    refine ⟨rfl, rfl, rfl, fun i f' mem' line' d' hf hmem hline hd => ?_⟩
    cases i with
    | zero =>
      cases hf
      cases hmem
      cases hline
      cases hd
      exact hR
    | succ i => simp at hf
  exact aligned_append hsingle h

theorem aligned_map {g : Field → Member} {k : Field → FieldDescriptor}
    (h : ∀ f ∈ fs, R f (g f) (memberLine (g f)) (k f)) :
    Aligned R fs (fs.map g) ((fs.map g).map memberLine) (fs.map k) := by
  induction fs with
  | nil => exact aligned_nil
  | cons f fs ih =>
    exact aligned_cons (h f List.mem_cons_self) (ih fun f' hf' => h f' (List.mem_cons_of_mem _ hf'))

end Aligned

/-- The plain fields of a message, whatever index their groups begin with. -/
theorem aligned_ofPlainFields (version3 : Bool) (index : Nat) (fs : List Field) :
    Aligned (Agrees version3) fs (fs.map (Member.ofField false))
      ((fs.map (Member.ofField false)).map memberLine) (ofPlainFields version3 index fs) := by
  induction fs generalizing index with
  | nil => exact aligned_nil
  | cons f fs ih =>
    rw [ofPlainFields, List.map_cons, List.map_cons]
    by_cases hf : tracksPresence version3 f = true
    · rw [if_pos hf]
      refine aligned_cons (agrees_of_eq rfl rfl rfl rfl fun _ => ?_) (ih _)
      have hlabel : (f.label? == some Label.optional) = true := (Bool.and_eq_true_iff.1 hf).2
      simp [Member.ofField, hlabel]
    · rw [if_neg hf]
      refine aligned_cons (agrees_of_eq rfl rfl rfl rfl fun hversion => ?_) (ih _)
      have hlabel : (f.label? == some Label.optional) = false := by
        rw [tracksPresence, hversion, Bool.true_and] at hf
        exact Bool.eq_false_iff.2 hf
      simp [Member.ofField, ofField, hlabel]

/-- The fields of the groups of alternatives. -/
theorem aligned_ofOneofs (version3 : Bool) (index : Nat) (os : List Oneof) :
    Aligned (Agrees version3) (os.flatMap Oneof.fields)
      ((os.flatMap Oneof.fields).map (Member.ofField true))
      (((os.flatMap Oneof.fields).map (Member.ofField true)).map memberLine)
      (ofOneofs index os) := by
  induction os generalizing index with
  | nil => exact aligned_nil
  | cons o os ih =>
    rw [ofOneofs, List.flatMap_cons, List.map_append, List.map_append]
    refine aligned_append (aligned_map fun f _ => ?_) (ih _)
    exact agrees_of_eq rfl rfl rfl rfl fun _ => iff_of_true rfl rfl

/-- The members of a message and the fields of its descriptor. -/
theorem aligned_members (version3 : Bool) (m : Message) :
    Aligned (Agrees version3) (allFields m) (members m) ((members m).map memberLine)
      (ofMessage version3 m).fields := by
  rw [ofMessage_eq, members, List.map_append]
  exact aligned_append (aligned_ofPlainFields version3 _ m.fields)
    (aligned_ofOneofs version3 0 m.oneofs)

/-- The members of an extension and the fields that it adds. -/
theorem aligned_extendMembers (e : Extend) :
    Aligned Describes e.fields (extendMembers e) ((extendMembers e).map memberLine) (ofExtend e) :=
  aligned_map fun _ _ => describes_of_eq rfl rfl rfl

/-! ## Places of messages -/

/-- The message at a place: the one with index `i`, or what is found on a path inside it. -/
def messageAt? (ms : List Message) (i : Nat) : List Nat → Option Message
  | [] => ms[i]?
  | j :: path => ms[i]?.bind fun m => messageAt? m.messages j path

/-- The descriptor at a place, where entries of maps are passed over. -/
def descriptorAt? (ds : List MessageDescriptor) (i : Nat) : List Nat → Option MessageDescriptor
  | [] => ds[i]?
  | j :: path => ds[i]?.bind fun d => descriptorAt? (d.nested.filter fun d => !d.isMapEntry) j path

theorem isMapEntry_of_entryOf? {f : Field} {d : MessageDescriptor} (h : entryOf? f = some d) :
    d.isMapEntry = true := by
  rw [entryOf?] at h
  split at h
  · cases h
    rfl
  · cases h

/-- Without the entries of maps, the descriptors inside a descriptor are those of the messages inside
the message. -/
theorem nested_ofMessage (version3 : Bool) (m : Message) :
    (ofMessage version3 m).nested.filter (fun d => !d.isMapEntry) =
      m.messages.map (ofMessage version3) := by
  have hdeclared : ∀ m : Message, (ofMessage version3 m).isMapEntry = false := fun m => by
    rw [ofMessage_eq]
  rw [ofMessage_eq]
  dsimp only
  rw [List.filter_append, List.filter_eq_nil_iff.2, List.nil_append, List.filter_eq_self.2]
  · intro d hd
    obtain ⟨m', -, rfl⟩ := List.mem_map.1 hd
    rw [hdeclared]
    rfl
  · intro d hd
    obtain ⟨f, -, hf⟩ := List.mem_filterMap.1 hd
    rw [isMapEntry_of_entryOf? hf]
    decide

/-- The descriptor at the place of a message is that of the message. -/
theorem descriptorAt?_map (version3 : Bool) (ms : List Message) (i : Nat) (path : List Nat) :
    descriptorAt? (ms.map (ofMessage version3)) i path =
      (messageAt? ms i path).map (ofMessage version3) := by
  induction path generalizing ms i with
  | nil => exact List.getElem?_map
  | cons j path ih =>
    rw [descriptorAt?, messageAt?, List.getElem?_map]
    cases ms[i]? with
    | none => rfl
    | some m =>
      change descriptorAt? ((ofMessage version3 m).nested.filter _) j path = _
      rw [nested_ofMessage, ih]
      rfl

/-! ## Places in the output -/

/-- Whether a text is part of another. -/
def Occurs (part whole : String) : Prop :=
  ∃ before after, whole = before ++ part ++ after

theorem Occurs.trans {a b c : String} (hab : Occurs a b) (hbc : Occurs b c) : Occurs a c := by
  obtain ⟨before, after, rfl⟩ := hab
  obtain ⟨before', after', rfl⟩ := hbc
  exact ⟨before' ++ before, after ++ after', by simp only [String.append_assoc]⟩

/-- What is joined is part of the whole. -/
theorem occurs_intercalate {text : String} {texts : List String} (h : text ∈ texts) :
    Occurs text ("\n".intercalate texts) := by
  induction texts with
  | nil => cases h
  | cons t ts ih =>
    rcases List.mem_cons.1 h with rfl | h
    · rw [← append_join_eq_intercalate]
      exact ⟨"", _, by rw [String.empty_append]⟩
    · rw [String.intercalate_cons_of_ne_nil (List.ne_nil_of_mem h)]
      exact (ih h).trans ⟨_, "", String.append_empty.symm⟩

section Occurs

variable {n d : Nat} {b : Block} {bs : List Block}

theorem occurs_block (h : b ∈ bs) :
    Occurs (b.render n d) ("\n".intercalate (bs.map (Block.render n d))) :=
  occurs_intercalate (List.mem_map_of_mem h)

/-- A block in a namespace is one level deeper. -/
theorem occurs_space {header : String} (h : b ∈ bs) :
    Occurs (b.render n (d + 1)) ((Block.space header bs).render n d) := by
  refine (occurs_block h).trans ?_
  rw [Block.render, renderAll_eq]
  exact ⟨_, _, rfl⟩

/-- A message that declares something in its scope has a namespace. -/
theorem space_mem_messageBlocks {m : Message} (h : m.hasNested = true) :
    .space ("export namespace " ++ m.name.text) (innerBlocks m) ∈ messageBlocks m := by
  rw [messageBlocks_eq, if_pos h]
  exact List.mem_cons_of_mem _ (List.mem_singleton_self _)

/-- The blocks of a message are in the output, one level deeper for each message around it. -/
theorem occurs_messageAt? {ms : List Message} {i : Nat} {path : List Nat} {m : Message}
    (hm : messageAt? ms i path = some m) (hb : b ∈ messageBlocks m)
    (hbs : ∀ b ∈ ms.flatMap messageBlocks, b ∈ bs) :
    Occurs (b.render n (d + path.length)) ("\n".intercalate (bs.map (Block.render n d))) := by
  induction path generalizing ms i d bs with
  | nil =>
    have hmem : m ∈ ms := List.mem_of_getElem? hm
    exact occurs_block (hbs b (List.mem_flatMap.2 ⟨m, hmem, hb⟩))
  | cons j path ih =>
    obtain ⟨m', hm', hrest⟩ := Option.bind_eq_some_iff.1 hm
    have hmem : m' ∈ ms := List.mem_of_getElem? hm'
    have hnested : m'.hasNested = true := by
      have hne : m'.messages ≠ [] := by
        intro hnil
        rw [hnil] at hrest
        cases path <;> cases hrest
      simp [Message.hasNested, hne]
    have hspace : .space ("export namespace " ++ m'.name.text) (innerBlocks m') ∈ bs :=
      hbs _ (List.mem_flatMap.2 ⟨m', hmem, space_mem_messageBlocks hnested⟩)
    have hinner : Occurs (b.render n (d + 1 + path.length))
        ("\n".intercalate ((innerBlocks m').map (Block.render n (d + 1)))) :=
      ih hrest fun b hb => List.mem_append_left _ (List.mem_append_right _ hb)
    refine Occurs.trans ?_ (occurs_block hspace)
    rw [Block.render, renderAll_eq, List.length_cons, Nat.add_comm path.length 1, ← Nat.add_assoc]
    exact hinner.trans ⟨_, _, rfl⟩

end Occurs

/-- The declarations and the descriptor of a file describe the same members.

For a message at any depth, the output has an interface at that depth, and the descriptor at the
same place has a field for each line of the interface, in the same order.  They agree place by place
on names, types, labels and presence.  For an extension, in a message or in the file, the output has
an interface too, and its lines and the added fields agree place by place on names and types. -/
theorem members_agree (f : File) (name : String) (o : Options) :
    (∀ i path m, messageAt? f.messages i path = some m →
      ∃ d lines, descriptorAt? (ofFile f name).messages i path = some d ∧
        Occurs ((Block.scope ("export interface " ++ m.name.text) lines).render o.indentSize
          path.length) (generate f o) ∧
        Aligned (Agrees (isVersion3 f)) (allFields m) (members m) lines d.fields ∧
        d.extensions = m.extendBlocks.flatMap ofExtend ∧
        ∀ e ∈ m.extendBlocks, ∃ added,
          Occurs ((Block.scope ("export interface " ++ lastSegment e.extendee.text) added).render
            o.indentSize (path.length + 1)) (generate f o) ∧
          Aligned Describes e.fields (extendMembers e) added (ofExtend e)) ∧
    (ofFile f name).extensions = f.extendBlocks.flatMap ofExtend ∧
    ∀ e ∈ f.extendBlocks, ∃ added,
      Occurs ((Block.scope ("export interface " ++ lastSegment e.extendee.text) added).render
        o.indentSize 0) (generate f o) ∧
      Aligned Describes e.fields (extendMembers e) added (ofExtend e) := by
  rw [generate_eq_intercalate]
  have hblocks : ∀ b ∈ f.messages.flatMap messageBlocks, b ∈ fileBlocks o.resolve f := fun b hb => by
    simp [fileBlocks, messagesBlocks_eq, hb]
  refine ⟨fun i path m hm => ?_, rfl, fun e he =>
    ⟨_, occurs_block (b := extendBlock e) ?_, aligned_extendMembers e⟩⟩
  · have hoccurs : ∀ b ∈ messageBlocks m, Occurs (b.render o.indentSize path.length)
        ("\n".intercalate ((fileBlocks o.resolve f).map (Block.render o.indentSize 0))) := by
      intro b hb
      have hat := occurs_messageAt? (n := o.indentSize) (d := 0) hm hb hblocks
      rwa [Nat.zero_add] at hat
    refine ⟨ofMessage (isVersion3 f) m, _, ?_, ?_, aligned_members _ m, by rw [ofMessage_eq], ?_⟩
    · change descriptorAt? (ofMessages _ f.messages) i path = _
      rw [ofMessages_eq, descriptorAt?_map, hm]
      rfl
    · refine hoccurs (interfaceBlock m) ?_
      rw [messageBlocks_eq]
      exact List.mem_cons_self
    · intro e he
      refine ⟨_, ?_, aligned_extendMembers e⟩
      have hnested : m.hasNested = true := by
        simp [Message.hasNested, List.ne_nil_of_mem he]
      refine Occurs.trans ?_ (hoccurs _ (space_mem_messageBlocks hnested))
      exact occurs_space (b := extendBlock e) (List.mem_append_right _ (List.mem_map_of_mem he))
  · exact List.mem_append_left _ (List.mem_append_right _ (List.mem_map_of_mem he))

/-- A field of a message inside a message, and one that is added to it there. -/
theorem members_agree_nested :
    let s : Span := ⟨1, 1, 0, 1⟩
    let field : Field := ⟨none, ⟨⟨".p.T", s⟩, [], s⟩, ⟨"a", s⟩, ⟨"1", s⟩, [], s⟩
    let e : Extend := ⟨⟨"p.T", s⟩, [field], s⟩
    let inner : Message := ⟨⟨"N", s⟩, [field], [], [], [], [e], [], none, [], s⟩
    let outer : Message := ⟨⟨"M", s⟩, [], [], [], [inner], [], [], none, [], s⟩
    let f : File := { messages := [outer], extendBlocks := [e] }
    generate f {} =
      "export interface M \x7b\x7d\n\nexport namespace M \x7b\n  export interface N \x7b\n" ++
        "    a: p.T;\n  \x7d\n\n  export namespace N \x7b\n    export interface T \x7b\n" ++
        "      a?: p.T;\n    \x7d\n  \x7d\n\x7d\n\nexport interface T \x7b\n  a?: p.T;\n\x7d\n" ∧
    (∃ d lines, descriptorAt? (ofFile f "a.proto").messages 0 [0] = some d ∧
      Occurs ((Block.scope "export interface N" lines).render 2 1) (generate f {}) ∧
      Aligned (Agrees false) [field] [⟨"a", false, "p.T", false⟩] lines d.fields) ∧
    (∃ added, Occurs ((Block.scope "export interface T" added).render 2 2) (generate f {}) ∧
      Aligned Describes [field] [⟨"a", true, "p.T", false⟩] added (ofExtend e)) ∧
    ∃ added, Occurs ((Block.scope "export interface T" added).render 2 0) (generate f {}) ∧
      Aligned Describes [field] [⟨"a", true, "p.T", false⟩] added (ofExtend e) := by
  intro s field e inner outer f
  have hmembers : members inner = [⟨"a", false, "p.T", false⟩] := by decide +kernel
  have hadded : extendMembers e = [⟨"a", true, "p.T", false⟩] := by decide +kernel
  have hsegment : "export interface " ++ lastSegment e.extendee.text = "export interface T" := by
    decide +kernel
  obtain ⟨hmessages, -, hextends⟩ := members_agree f "a.proto" {}
  obtain ⟨d, lines, hd, hoccurs, haligned, -, hinner⟩ := hmessages 0 [0] inner rfl
  rw [hmembers] at haligned
  have hinside := hinner e (List.mem_singleton_self e)
  have houtside := hextends e (List.mem_singleton_self e)
  rw [hadded, hsegment] at hinside houtside
  exact ⟨by decide +kernel, ⟨d, lines, hd, hoccurs, haligned⟩, hinside, houtside⟩

end ProtoDecl.TypeScript
