import Mathlib.Data.Option.Basic
import ProtoDecl.Proofs.Descriptor.Entries
import ProtoDecl.Proofs.Descriptor.Oneofs

/-!
# Names made for a descriptor

Two kinds of names in the descriptor of a message do not stand in the schema: the names of entries of
maps, and those of the groups that fields get for themselves.  They are made from the names of
fields, and may clash with other names of the message.

* A group for a field keeps clear of the declared groups, but not of the fields (`groups_apart_iff`).
* A field that is a map finds its entry, unless the names of two maps differ in nothing but
  underscores and the capitals behind them.  An added field that is a map never finds one, because no
  entry is declared for it (`entries_found_iff`).
-/

namespace ProtoDecl.Descriptor

open Schema
open TypeScript (messageAt? descriptorAt? descriptorAt?_map)

/-- The descriptor at the place of a message. -/
theorem descriptorAt?_ofFile {f : File} {i : Nat} {path : List Nat} {m : Message}
    (h : messageAt? f.messages i path = some m) (name : String) :
    descriptorAt? (ofFile f name).messages i path = some (ofMessage (isVersion3 f) m) := by
  change descriptorAt? (ofMessages _ _) i path = _
  rw [ofMessages_eq, descriptorAt?_map, h]
  rfl

/-- Lists side by side have the same images, if related elements have. -/
theorem map_eq_map_of_forall₂ {α β γ : Type} {R : α → β → Prop} {g : α → γ} {k : β → γ}
    {xs : List α} {ys : List β} (h : List.Forall₂ R xs ys) (hR : ∀ x y, R x y → g x = k y) :
    xs.map g = ys.map k := by
  induction h with
  | nil => rfl
  | cons hxy _ ih => rw [List.map_cons, List.map_cons, hR _ _ hxy, ih]

/-! ## Names of groups -/

/-- The names of the fields of a message, plain or in a group. -/
def fieldNames (m : Message) : List String :=
  (allFields m).map fun f => f.name.text

/-- Whether no group of a descriptor has the name of a field. -/
def GroupsApart (d : MessageDescriptor) : Prop :=
  ∀ group ∈ d.oneofs, group ∉ d.fields.map fun f => f.name

instance (d : MessageDescriptor) : Decidable (GroupsApart d) :=
  inferInstanceAs (Decidable (∀ group ∈ d.oneofs, group ∉ d.fields.map fun f => f.name))

theorem names_ofMessage (version3 : Bool) (m : Message) :
    ((ofMessage version3 m).fields.map fun d => d.name) = fieldNames m := by
  refine (map_eq_map_of_forall₂ (exports_fields version3 m) fun f d hd => ?_).symm
  obtain ⟨index, presence⟩ := hd
  rfl

/-- A group for a field has the name of a field just where the first candidate that is not declared
is such a name. -/
theorem presenceName_not_mem_iff {declared names : List String} {field : String} :
    presenceName declared field ∉ names ↔
      ∀ n, FirstFree declared (presenceCandidate field) n → presenceCandidate field n ∉ names := by
  obtain ⟨n, -, hfirst, hn⟩ := presenceName_firstFree declared field
  rw [hn]
  refine ⟨fun h n' hfirst' => ?_, fun h => h n hfirst⟩
  rwa [← hfirst.unique hfirst']

/-- Where no declared group has the name of a field, the groups of a message keep apart from its
fields unless the name that is made for a group is that of a field: the first of `_name`, `X_name`,
`XX_name`, … that is not declared.

Only the declared groups are looked at when that name is made. -/
theorem groups_apart_iff (f : File) (name : String) (i : Nat) (path : List Nat) (m : Message)
    (hm : messageAt? f.messages i path = some m)
    (hdeclared : ∀ o ∈ m.oneofs, o.name.text ∉ fieldNames m) :
    ∃ d, descriptorAt? (ofFile f name).messages i path = some d ∧
      (GroupsApart d ↔ ∀ g ∈ presenceFields (isVersion3 f) m, ∀ n,
        FirstFree (m.oneofs.map fun o => o.name.text) (presenceCandidate g.name.text) n →
          presenceCandidate g.name.text n ∉ fieldNames m) := by
  refine ⟨_, descriptorAt?_ofFile hm name, ?_⟩
  have hdeclared : ∀ group ∈ m.oneofs.map (fun o => o.name.text), group ∉ fieldNames m :=
    List.forall_mem_map.2 hdeclared
  rw [GroupsApart, names_ofMessage, oneofs_ofMessage, List.forall_mem_append,
    and_iff_right hdeclared, List.forall_mem_map]
  exact forall₂_congr fun g _ => presenceName_not_mem_iff

/-- The first name for the group is declared, and the second is that of a field. -/
theorem groups_apart_iff_second :
    let f := (parse (tokenize ("syntax = \"proto3\"; message M \x7b optional int32 a = 1;" ++
      " int32 X_a = 2; oneof _a \x7b bool b = 3; \x7d \x7d")).tokens).file
    ∃ m d, messageAt? f.messages 0 [] = some m ∧
      descriptorAt? (ofFile f "m.proto").messages 0 [] = some d ∧
      (∀ o ∈ m.oneofs, o.name.text ∉ fieldNames m) ∧ ¬GroupsApart d := by
  intro f
  have hread : (messageAt? f.messages 0 []).map (fun m => (m.oneofs.map fun o => o.name.text,
      fieldNames m, (presenceFields (isVersion3 f) m).map fun g => g.name.text)) =
      some (["_a"], ["a", "X_a", "b"], ["a"]) := by
    decide +kernel
  obtain ⟨m, hm, hnames⟩ := Option.map_eq_some_iff.1 hread
  obtain ⟨hgroups, hfields, hpresence⟩ : _ ∧ _ ∧ _ := by simpa only [Prod.mk.injEq] using hnames
  have hdeclared : ∀ o ∈ m.oneofs, o.name.text ∉ fieldNames m := by
    intro o ho
    have hmem : o.name.text ∈ m.oneofs.map fun o => o.name.text := List.mem_map_of_mem ho
    rw [hgroups, List.mem_singleton] at hmem
    rw [hmem, hfields]
    decide
  obtain ⟨g, hg, hname⟩ : ∃ g ∈ presenceFields (isVersion3 f) m, g.name.text = "a" :=
    List.mem_map.1 (hpresence ▸ List.mem_singleton_self "a")
  obtain ⟨d, hd, hiff⟩ := groups_apart_iff f "m.proto" 0 [] m hm hdeclared
  refine ⟨m, d, hm, hd, hdeclared, fun hapart => hiff.1 hapart g hg 1 ?_ ?_⟩
  · rw [hgroups, hname]
    exact ⟨by decide, by decide⟩
  · rw [hfields, hname]
    decide

/-- A group is made with the name of a field, though the fields have different names and no group is
declared. -/
theorem group_named_like_field :
    let scan := tokenize
      "syntax = \"proto3\"; message M \x7b optional int32 a = 1; int32 _a = 2; \x7d"
    let f := (parse scan.tokens).file
    scan.errors = [] ∧ (parse scan.tokens).errors = [] ∧ isVersion3 f = true ∧
      f.messages.map (fun m => (fieldNames m, m.oneofs.length)) = [(["a", "_a"], 0)] ∧
      (ofFile f "m.proto").messages.map (fun d => (d.fields.map fun g => g.name, d.oneofs)) =
        [(["a", "_a"], ["_a"])] ∧
      ∀ d ∈ (ofFile f "m.proto").messages, ¬GroupsApart d := by
  decide +kernel

/-! ## Names of entries -/

/-- A word with a capital. -/
def capitalise : List Char → List Char
  | [] => []
  | c :: cs => Text.toUpper c ++ cs

/-- The words of a name, which underscores divide, side by side and with capitals. -/
def camelCase (name : List Char) : List Char :=
  (name.splitOn '_').flatMap capitalise

theorem splitOn_underscore_cons (c : Char) (cs : List Char) :
    (c :: cs).splitOn '_' =
      if c = '_' then [] :: cs.splitOn '_' else (cs.splitOn '_').modifyHead (c :: ·) := by
  rw [List.splitOn, List.splitOnP_cons_eq_if_modifyHead]
  simp only [beq_iff_eq]
  rfl

/-- Inside of a word, what comes up to the next underscore is kept as it is. -/
theorem pascal_eq (cs : List Char) :
    pascal true cs = camelCase cs ∧
      ∃ word words, cs.splitOn '_' = word :: words ∧
        pascal false cs = word ++ words.flatMap capitalise := by
  induction cs with
  | nil => exact ⟨rfl, [], [], rfl, rfl⟩
  | cons c cs ih =>
    obtain ⟨hstart, word, words, hsplit, hinside⟩ := ih
    rw [camelCase, splitOn_underscore_cons, pascal, pascal]
    by_cases hc : c = '_'
    · rw [if_pos hc, if_pos hc, if_pos hc, hstart]
      exact ⟨rfl, [], cs.splitOn '_', rfl, rfl⟩
    · rw [if_neg hc, if_neg hc, if_neg hc, hinside, hsplit]
      exact ⟨by simp [capitalise], c :: word, words, rfl, by simp⟩

theorem entryName_eq (f : Field) :
    entryName f = String.ofList (camelCase f.name.text.toList) ++ "Entry" := by
  rw [entryName, (pascal_eq _).1]

/-- The names of entries differ if those of the fields do in camel case. -/
theorem nodup_entryName_iff (fs : List Field) :
    (fs.map entryName).Nodup ↔ (fs.map fun f => camelCase f.name.text.toList).Nodup := by
  have hinj : Function.Injective fun cs : List Char => String.ofList cs ++ "Entry" := by
    intro cs cs' h
    simpa using congrArg String.toList h
  rw [← List.nodup_map_iff hinj, List.map_map, List.map_congr_left fun f _ => entryName_eq f]
  rfl

theorem suffix_entryName (f : Field) : "Entry".toList <:+ (entryName f).toList := by
  rw [entryName, String.toList_append]
  exact List.suffix_append _ _

/-! ## Fields that refer to entries -/

/-- Whether a field, if it has the type of a message, refers to just one of some messages, and that
is an entry of the map that it is written as. -/
def Finds (nested : List MessageDescriptor) (f : Field) (d : FieldDescriptor) : Prop :=
  d.type.map TypeCode.code = some 11 →
    ∃ e, nested.filter (fun t => d.typeName = some t.name) = [e] ∧ EntryOf f e

/-- Whether fields with the type of a message find their entries, and no two of them the same. -/
structure EntriesFound (nested : List MessageDescriptor) (fs : List Field)
    (ds : List FieldDescriptor) : Prop where
  each : List.Forall₂ (Finds nested) fs ds
  own : ((ds.filter fun d => d.type.map TypeCode.code = some 11).map fun d => d.typeName).Nodup

/-- Whether a descriptor has the type of a field. -/
structure TypedAs (f : Field) (d : FieldDescriptor) : Prop where
  type : d.type = (ofField f).type
  typeName : d.typeName = (ofField f).typeName

/-- The fields that some blocks add to messages. -/
def addedFields (blocks : List Extend) : List Field :=
  blocks.flatMap Extend.fields

theorem filter_isMap_eq_nil {fs : List Field} (h : ∀ f ∈ fs, f.type.isMap = false) :
    fs.filter (fun f => f.type.isMap) = [] :=
  List.filter_eq_nil_iff.2 fun f hf => by simp [h f hf]

theorem typedAs_ofExtend (blocks : List Extend) :
    List.Forall₂ TypedAs (addedFields blocks) (blocks.flatMap ofExtend) := by
  induction blocks with
  | nil => exact .nil
  | cons block blocks ih =>
    rw [addedFields, List.flatMap_cons, List.flatMap_cons]
    refine List.rel_append (List.forall₂_map_right_iff.2 ?_) ih
    exact List.forall₂_same.2 fun f _ => ⟨rfl, rfl⟩

theorem typedAs_ofMessage (version3 : Bool) (m : Message) :
    List.Forall₂ TypedAs (allFields m ++ addedFields m.extendBlocks)
      ((ofMessage version3 m).fields ++ (ofMessage version3 m).extensions) := by
  refine List.rel_append ((exports_fields version3 m).imp fun f d hd => ?_) ?_
  · obtain ⟨index, presence⟩ := hd
    exact ⟨rfl, rfl⟩
  · rw [ofMessage_eq]
    exact typedAs_ofExtend m.extendBlocks

section
variable {nested : List MessageDescriptor} {f : Field} {d : FieldDescriptor} {fs : List Field}
  {ds : List FieldDescriptor}

theorem TypedAs.isMap_iff (h : TypedAs f d) :
    f.type.isMap = true ↔ d.type.map TypeCode.code = some 11 := by
  rw [h.type]
  exact (Exports.intro (f := f) none false).isMap_iff

theorem TypedAs.typeName_of_isMap (h : TypedAs f d) (hmap : f.type.isMap = true) :
    d.typeName = some (entryName f) := by
  rw [h.typeName]
  exact ((Exports.intro (f := f) none false).of_isMap hmap).2

/-- Whether just one of some messages has the name of the entry of a field, and is one. -/
def HasEntry (nested : List MessageDescriptor) (f : Field) : Prop :=
  ∃ e, nested.filter (fun t => t.name = entryName f) = [e] ∧ EntryOf f e

theorem TypedAs.finds_iff (h : TypedAs f d) :
    Finds nested f d ↔ (f.type.isMap = true → HasEntry nested f) := by
  rw [Finds, ← h.isMap_iff]
  refine imp_congr_right fun hmap => ?_
  simp only [h.typeName_of_isMap hmap, Option.some_inj, eq_comm (a := entryName f)]
  rfl

/-- The entries are found if each map has one, and the names made for them differ. -/
theorem entriesFound_iff (h : List.Forall₂ TypedAs fs ds) :
    EntriesFound nested fs ds ↔
      (∀ f ∈ fs.filter (fun f => f.type.isMap), HasEntry nested f) ∧
        ((fs.filter fun f => f.type.isMap).map entryName).Nodup := by
  have heach : List.Forall₂ (Finds nested) fs ds ↔
      ∀ f ∈ fs.filter (fun f => f.type.isMap), HasEntry nested f := by
    simp only [List.mem_filter, and_imp]
    induction h with
    | nil => simp
    | cons hfd _ ih =>
      rw [List.forall₂_cons, hfd.finds_iff, ih, List.forall_mem_cons]
  have hmaps : List.Forall₂ (fun f d => TypedAs f d ∧ f.type.isMap = true)
      (fs.filter fun f => f.type.isMap) (ds.filter fun d => d.type.map TypeCode.code = some 11) := by
    have hfilter := List.rel_filter (p := fun f : Field => f.type.isMap)
      (q := fun d : FieldDescriptor => d.type.map TypeCode.code = some 11)
      (fun f d hd => by simpa using TypedAs.isMap_iff hd) h
    exact ((List.forall₂_and_left _ _).2 ⟨fun f hf => (List.mem_filter.1 hf).2, hfilter⟩).imp
      fun f d hd => hd.symm
  have hnames := map_eq_map_of_forall₂ hmaps (g := fun f => some (entryName f))
    (k := fun d => d.typeName) fun f d hd => (hd.1.typeName_of_isMap hd.2).symm
  have hown : ((ds.filter fun d => d.type.map TypeCode.code = some 11).map
      fun d => d.typeName).Nodup ↔ ((fs.filter fun f => f.type.isMap).map entryName).Nodup := by
    rw [← hnames, ← List.nodup_map_iff (Option.some_injective String), List.map_map]
    rfl
  exact ⟨fun hfound => ⟨heach.1 hfound.each, hown.1 hfound.own⟩,
    fun hfound => ⟨heach.2 hfound.1, hown.2 hfound.2⟩⟩

end

/-! ## Messages -/

/-- Of elements with different keys, one is found by its key. -/
theorem filter_eq_singleton {α β : Type} [DecidableEq β] {key : α → β} {xs : List α} {x : α}
    (h : (xs.map key).Nodup) (hx : x ∈ xs) : xs.filter (fun y => key y = key x) = [x] := by
  induction xs with
  | nil => cases hx
  | cons y xs ih =>
    rw [List.map_cons, List.nodup_cons] at h
    obtain ⟨hy, hnodup⟩ := h
    rcases List.mem_cons.1 hx with rfl | hx
    · rw [List.filter_cons_of_pos (by simp), List.filter_eq_nil_iff.2]
      intro z hz heq
      exact hy (of_decide_eq_true heq ▸ List.mem_map_of_mem hz)
    · rw [List.filter_cons_of_neg, ih hnodup hx]
      intro heq
      exact hy (of_decide_eq_true heq ▸ List.mem_map_of_mem hx)

section
variable {version3 : Bool} {m : Message}

theorem nested_ofMessage_eq (h : m.Paired) :
    (ofMessage version3 m).nested =
      (mapFields m).map mapEntry ++ m.messages.map (ofMessage version3) :=
  (inStep_ofMessage version3 h).nested

/-- A map finds its entry, if neither another map nor a declared message takes its name. -/
theorem hasEntry_of_mem_mapFields (h : m.Paired) (hnames : ((mapFields m).map entryName).Nodup)
    (hmessages : ∀ inner ∈ m.messages, ¬"Entry".toList <:+ inner.name.text.toList) {f : Field}
    (hf : f ∈ mapFields m) : HasEntry (ofMessage version3 m).nested f := by
  refine ⟨mapEntry f, ?_, entryOf_mapEntry (of_decide_eq_true (List.mem_filter.1 hf).2).2⟩
  have hdeclared : (m.messages.map (ofMessage version3)).filter
      (fun t => t.name = entryName f) = [] := by
    refine List.filter_eq_nil_iff.2 fun t ht heq => ?_
    obtain ⟨inner, hinner, rfl⟩ := List.mem_map.1 ht
    have hname : inner.name.text = entryName f := by
      rw [ofMessage_eq] at heq
      exact of_decide_eq_true heq
    exact hmessages inner hinner (hname ▸ suffix_entryName f)
  have hentries : ((mapFields m).map mapEntry).filter (fun t => t.name = entryName f) =
      [mapEntry f] := by
    have hkeys : (((mapFields m).map mapEntry).map fun t => t.name).Nodup := by rwa [List.map_map]
    exact filter_eq_singleton hkeys (List.mem_map_of_mem hf)
  rw [nested_ofMessage_eq h, List.filter_append, hdeclared, hentries, List.append_nil]

/-- What has an entry among the messages inside has the name of a map of the message. -/
theorem HasEntry.mem_names (h : m.Paired) {f : Field}
    (hf : HasEntry (ofMessage version3 m).nested f) :
    entryName f ∈ (mapFields m).map entryName := by
  obtain ⟨e, hfilter, hentry⟩ := hf
  obtain ⟨hmem, hname⟩ := List.mem_filter.1 (hfilter ▸ List.mem_singleton_self e)
  rw [nested_ofMessage_eq h] at hmem
  rcases List.mem_append.1 hmem with hmem | hmem
  · obtain ⟨g, hg, rfl⟩ := List.mem_map.1 hmem
    exact List.mem_map.2 ⟨g, hg, of_decide_eq_true hname⟩
  · have hdeclared := (inStep_ofMessage version3 h).declared e hmem
    rw [hentry.isMapEntry] at hdeclared
    cases hdeclared

theorem entriesFound_ofMessage_iff (h : m.Paired)
    (hmessages : ∀ inner ∈ m.messages, ¬"Entry".toList <:+ inner.name.text.toList) :
    EntriesFound (ofMessage version3 m).nested (allFields m ++ addedFields m.extendBlocks)
        ((ofMessage version3 m).fields ++ (ofMessage version3 m).extensions) ↔
      (∀ f ∈ addedFields m.extendBlocks, f.type.isMap = false) ∧
        ((mapFields m).map fun f => camelCase f.name.text.toList).Nodup := by
  rw [entriesFound_iff (typedAs_ofMessage version3 m), List.filter_append, filter_isMap h,
    List.forall_mem_append, List.map_append, List.nodup_append', ← nodup_entryName_iff]
  constructor
  · rintro ⟨⟨-, hadded⟩, hnodup, -, hdisjoint⟩
    refine ⟨fun f hf => Bool.eq_false_iff.2 fun hmap => ?_, hnodup⟩
    -- The entry that an added map finds is that of a map of the message.
    have hmem : f ∈ (addedFields m.extendBlocks).filter fun f => f.type.isMap :=
      List.mem_filter.2 ⟨hf, hmap⟩
    exact hdisjoint ((hadded f hmem).mem_names h) (List.mem_map_of_mem hmem)
  · rintro ⟨hadded, hnodup⟩
    rw [filter_isMap_eq_nil hadded]
    refine ⟨⟨fun f hf => hasEntry_of_mem_mapFields h hnodup hmessages hf, by simp⟩, hnodup, ?_⟩
    simp

end

/-- In a message without declared messages that are named like entries, every field and every added
field with the type of a message finds an entry of its own, if no added field is a map, and the names
of the maps differ in camel case too; and only then.  At the outside of all messages there are no
entries, so no added field finds one. -/
theorem entries_found_iff (tokens : List Token) (name : String) :
    let f := (parse tokens).file
    (∀ (i : Nat) (path : List Nat) (m : Message), messageAt? f.messages i path = some m →
      (∀ inner ∈ m.messages, ¬"Entry".toList <:+ inner.name.text.toList) →
      ∃ d, descriptorAt? (ofFile f name).messages i path = some d ∧
        (EntriesFound d.nested (allFields m ++ addedFields m.extendBlocks)
            (d.fields ++ d.extensions) ↔
          (∀ g ∈ addedFields m.extendBlocks, g.type.isMap = false) ∧
            ((mapFields m).map fun g => camelCase g.name.text.toList).Nodup)) ∧
      (EntriesFound [] (addedFields f.extendBlocks) (ofFile f name).extensions ↔
        ∀ g ∈ addedFields f.extendBlocks, g.type.isMap = false) := by
  intro f
  refine ⟨fun i path m hm hmessages => ⟨_, descriptorAt?_ofFile hm name, ?_⟩, ?_⟩
  · exact entriesFound_ofMessage_iff (paired_messageAt? (parse_paired tokens) hm) hmessages
  · change EntriesFound [] _ (f.extendBlocks.flatMap ofExtend) ↔ _
    rw [entriesFound_iff (typedAs_ofExtend f.extendBlocks)]
    constructor
    · rintro ⟨heach, -⟩ g hg
      refine Bool.eq_false_iff.2 fun hmap => ?_
      obtain ⟨e, hnil, -⟩ := heach g (List.mem_filter.2 ⟨hg, hmap⟩)
      cases hnil
    · intro hadded
      rw [filter_isMap_eq_nil hadded]
      simp

/-- A plain field and one in a group are maps, and a message is declared beside their entries. -/
theorem entries_found_iff_declared :
    let f := (parse (tokenize ("message M \x7b map<string, int32> a_b = 1; message T \x7b\x7d" ++
      " oneof o \x7b map<int32, T> a_c = 2; \x7d \x7d")).tokens).file
    ∃ m d, messageAt? f.messages 0 [] = some m ∧
      descriptorAt? (ofFile f "m.proto").messages 0 [] = some d ∧
      (∀ inner ∈ m.messages, ¬"Entry".toList <:+ inner.name.text.toList) ∧
      d.nested.map (fun e => e.name) = ["ABEntry", "ACEntry", "T"] ∧
      EntriesFound d.nested (allFields m ++ addedFields m.extendBlocks)
        (d.fields ++ d.extensions) := by
  intro f
  obtain ⟨hread, hnested⟩ : (messageAt? f.messages 0 []).map (fun m =>
        (m.messages.map fun m => m.name.text, m.extendBlocks.length,
          (mapFields m).map fun g => g.name.text)) = some (["T"], 0, ["a_b", "a_c"]) ∧
      (descriptorAt? (ofFile f "m.proto").messages 0 []).map (fun d =>
        d.nested.map fun e => e.name) = some ["ABEntry", "ACEntry", "T"] := by
    decide +kernel
  obtain ⟨m, hm, hnames⟩ := Option.map_eq_some_iff.1 hread
  obtain ⟨hmessages, hblocks, hmaps⟩ : _ ∧ _ ∧ _ := by simpa only [Prod.mk.injEq] using hnames
  have hdeclared : ∀ inner ∈ m.messages, ¬"Entry".toList <:+ inner.name.text.toList := by
    intro inner hinner
    have hmem : inner.name.text ∈ m.messages.map fun m => m.name.text := List.mem_map_of_mem hinner
    rw [hmessages, List.mem_singleton] at hmem
    rw [hmem]
    decide
  obtain ⟨hinside, -⟩ := entries_found_iff _ "m.proto"
  obtain ⟨d, hd, hiff⟩ := hinside 0 [] m hm hdeclared
  rw [hd, Option.map_some, Option.some_inj] at hnested
  refine ⟨m, d, hm, hd, hdeclared, hnested, hiff.2 ⟨?_, ?_⟩⟩
  · rw [List.length_eq_zero_iff.1 hblocks]
    simp [addedFields]
  · have hcamel : ((mapFields m).map fun g => g.name.text).map (fun name => camelCase name.toList) =
        (mapFields m).map fun g => camelCase g.name.text.toList := List.map_map ..
    rw [← hcamel, hmaps]
    decide +kernel

/-- An added field that is a map refers to an entry that is not declared, and the entries of two maps
have one name, though those of the fields differ. -/
theorem entries_not_found :
    let added := parse (tokenize
      "message M \x7b extend X \x7b map<string, int32> m = 100; \x7d \x7d").tokens
    let alike := parse (tokenize
      "message M \x7b map<string, int32> a_b = 1; map<string, string> aB = 2; \x7d").tokens
    (added.errors = [] ∧
      (ofFile added.file "m.proto").messages.map (fun d =>
        (d.extensions.map fun g => (g.type.map TypeCode.code, g.typeName), d.nested.length)) =
        [([(some 11, some "MEntry")], 0)]) ∧
      alike.errors = [] ∧ alike.file.messages.map fieldNames = [["a_b", "aB"]] ∧
      (ofFile alike.file "m.proto").messages.map (fun d =>
        (d.fields.map fun g => g.typeName, d.nested.map fun e => e.name)) =
        [([some "ABEntry", some "ABEntry"], ["ABEntry", "ABEntry"])] := by
  decide +kernel

end ProtoDecl.Descriptor
