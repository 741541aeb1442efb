import Mathlib.Data.List.Forall2
import ProtoDecl.Proofs.Output.Members
import ProtoDecl.Proofs.WellFormed.Arguments

/-!
# Entries of maps

A field that is written as a map is exported as a repeated field of a message, and that message, an
entry of the map, is declared for it among the messages inside.  The entries come first there, in the
order of the fields, and the declared messages follow (`InStep`).

The fields of a descriptor are the plain ones and then those of the groups, and so are the fields
that entries are made from.  So the two lists go side by side (`exports_fields`), and stay so when
only the maps are kept.
-/

namespace ProtoDecl.Descriptor

open Schema
open TypeScript (messageAt? descriptorAt? descriptorAt?_map)

/-! ## Maps and their entries -/

/-- The fields of a message that are written as maps of a key and a value: the plain ones, then those
of its groups. -/
def mapFields (m : Message) : List Field :=
  (allFields m).filter fun f => f.type.name.text = "map" ∧ f.type.arguments.length = 2

/-- The fields of a descriptor with the type of a message. -/
def messageFields (d : MessageDescriptor) : List FieldDescriptor :=
  d.fields.filter fun f => f.type.map TypeCode.code = some 11

/-- Whether a descriptor is that of a field, whatever group it refers to. -/
inductive Exports (f : Field) : FieldDescriptor → Prop
  | intro (index : Option Nat) (presence : Bool) :
      Exports f { ofField f with oneofIndex := index, tracksPresence := presence }

/-- Whether a field of an entry has the given name, number and type. -/
structure EntryField (name : String) (number : Int32) (t : FieldType) (d : FieldDescriptor) :
    Prop where
  name : d.name = name
  number : d.number = number
  label : d.label = .optional
  scalar : ∀ s, Scalar.ofName? t.name.text = some s → d.type = some (.scalar s) ∧ d.typeName = none
  /-- The name of any other type stands as it was written. -/
  declared : Scalar.ofName? t.name.text = none → d.type = none ∧ d.typeName = some t.name.text

/-- Whether a message is an entry of the map that a field is written as. -/
structure EntryOf (f : Field) (e : MessageDescriptor) : Prop where
  isMapEntry : e.isMapEntry = true
  fields : ∃ key value, f.type.arguments = [key, value] ∧
    ∃ k v, e.fields = [k, v] ∧ EntryField "key" 1 key k ∧ EntryField "value" 2 value v

/-- Whether the fields of a message that are maps, their descriptors, and the entries at the front of
the messages inside go side by side. -/
structure InStep (version3 : Bool) (m : Message) (d : MessageDescriptor)
    (entries : List MessageDescriptor) : Prop where
  nested : d.nested = entries ++ m.messages.map (ofMessage version3)
  written : List.Forall₂ Exports (mapFields m) (messageFields d)
  refers : List.Forall₂ (fun g e => g.label = .repeated ∧ g.typeName = some e.name)
    (messageFields d) entries
  entries : List.Forall₂ EntryOf (mapFields m) entries
  declared : ∀ e ∈ m.messages.map (ofMessage version3), e.isMapEntry = false

/-! ## Fields and their descriptors -/

theorem exports_ofPlainFields (version3 : Bool) (index : Nat) (fs : List Field) :
    List.Forall₂ Exports fs (ofPlainFields version3 index fs) := by
  induction fs generalizing index with
  | nil => exact .nil
  | cons f fs ih =>
    rw [ofPlainFields]
    split
    · exact .cons (.intro (some index) true) (ih _)
    · exact .cons (.intro none false) (ih _)

theorem exports_ofOneofs (index : Nat) (os : List Oneof) :
    List.Forall₂ Exports (os.flatMap Oneof.fields) (ofOneofs index os) := by
  induction os generalizing index with
  | nil => exact .nil
  | cons o os ih =>
    rw [ofOneofs, List.flatMap_cons]
    refine List.rel_append (List.forall₂_map_right_iff.2 ?_) (ih _)
    exact List.forall₂_same.2 fun f _ => .intro (some index) false

/-- The fields of a message and of its descriptor go side by side. -/
theorem exports_fields (version3 : Bool) (m : Message) :
    List.Forall₂ Exports (allFields m) (ofMessage version3 m).fields := by
  rw [ofMessage_eq]
  exact List.rel_append (exports_ofPlainFields version3 _ m.fields) (exports_ofOneofs 0 m.oneofs)

theorem code_eq_message_iff (t : TypeCode) : t.code = 11 ↔ t = .message := by
  cases t with
  | message => simp [TypeCode.code]
  | scalar s => cases s <;> simp [TypeCode.code]

theorem Exports.isMap_iff {f : Field} {d : FieldDescriptor} (h : Exports f d) :
    f.type.isMap = true ↔ d.type.map TypeCode.code = some 11 := by
  obtain ⟨index, presence⟩ := h
  dsimp only [ofField]
  split
  · rename_i hmap
    exact iff_of_true hmap rfl
  · rename_i hmap
    refine iff_of_false hmap fun hcode => ?_
    obtain ⟨t, ht, hcode⟩ := Option.map_eq_some_iff.1 hcode
    obtain ⟨s, -, rfl⟩ := Option.map_eq_some_iff.1 ht
    cases (code_eq_message_iff _).1 hcode

/-- The descriptor of a map refers to an entry, and may occur more than once. -/
theorem Exports.of_isMap {f : Field} {d : FieldDescriptor} (h : Exports f d)
    (hmap : f.type.isMap = true) :
    d.label = .repeated ∧ d.typeName = some (mapEntry f).name := by
  obtain ⟨index, presence⟩ := h
  simp [ofField, hmap, mapEntry]

/-! ## Entries -/

theorem entryField_entryField (name : String) (number : Int32) (t : FieldType) :
    EntryField name number t (entryField name number t) where
  name := rfl
  number := rfl
  label := rfl
  scalar := fun s hs => by simp [entryField, scalarCode?, typeName?, hs]
  declared := fun hnone => by simp [entryField, scalarCode?, typeName?, hnone]

theorem entryOf_mapEntry {f : Field} (h : f.type.arguments.length = 2) : EntryOf f (mapEntry f) := by
  obtain ⟨key, value, harguments⟩ := List.length_eq_two.1 h
  refine ⟨rfl, key, value, harguments, entryField "key" 1 key, entryField "value" 2 value, ?_,
    entryField_entryField _ _ _, entryField_entryField _ _ _⟩
  rw [mapEntry, harguments]
  rfl

theorem filterMap_entryOf? (fs : List Field) :
    fs.filterMap entryOf? = (fs.filter fun f => f.type.isMap).map mapEntry := by
  induction fs with
  | nil => rfl
  | cons f fs ih =>
    by_cases hmap : f.type.isMap = true
    · simp [entryOf?, hmap, ih]
    · simp [entryOf?, hmap, ih]

/-- Where types have no arguments or two, the maps are the fields written as such. -/
theorem filter_isMap {m : Message} (h : m.Paired) :
    (allFields m).filter (fun f => f.type.isMap) = mapFields m := by
  obtain ⟨hfields, honeofs, -⟩ := h
  refine List.filter_congr fun f hf => ?_
  have hpaired : f.type.Paired := by
    rcases List.mem_append.1 hf with hf | hf
    · exact hfields f hf
    · obtain ⟨o, ho, hf⟩ := List.mem_flatMap.1 hf
      exact honeofs o ho f hf
  rw [FieldType.isMap, Bool.eq_iff_iff]
  rcases hpaired with hnil | htwo
  · simp [hnil]
  · have hne : f.type.arguments ≠ [] := List.ne_nil_of_length_eq_add_one htwo
    simp [htwo, hne]

/-! ## Messages -/

theorem inStep_ofMessage (version3 : Bool) {m : Message} (h : m.Paired) :
    InStep version3 m (ofMessage version3 m) ((mapFields m).map mapEntry) := by
  have hmaps : ∀ f ∈ mapFields m, f.type.isMap = true := by
    rw [← filter_isMap h]
    exact fun f hf => (List.mem_filter.1 hf).2
  have hexports : List.Forall₂ Exports (mapFields m) (messageFields (ofMessage version3 m)) := by
    rw [← filter_isMap h]
    exact List.rel_filter (fun f d hd => by simpa using hd.isMap_iff) (exports_fields version3 m)
  have hrefers := ((List.forall₂_and_left _ _).2 ⟨hmaps, hexports⟩).imp
    fun f d hd => hd.2.of_isMap hd.1
  refine ⟨?_, hexports, (List.forall₂_map_left_iff.2 hrefers).flip, ?_, ?_⟩
  · rw [ofMessage_eq, ← filter_isMap h, ← filterMap_entryOf?]
  · refine List.forall₂_map_right_iff.2 (List.forall₂_same.2 fun f hf => entryOf_mapEntry ?_)
    exact (of_decide_eq_true (List.mem_filter.1 hf).2).2
  · intro e he
    obtain ⟨m', -, rfl⟩ := List.mem_map.1 he
    rw [ofMessage_eq]

theorem paired_messageAt? {ms : List Message} {i : Nat} {path : List Nat} {m : Message}
    (h : ∀ m ∈ ms, m.Paired) (hm : messageAt? ms i path = some m) : m.Paired := by
  induction path generalizing ms i with
  | nil => exact h m (List.mem_of_getElem? hm)
  | cons j path ih =>
    obtain ⟨outer, houter, hrest⟩ := Option.bind_eq_some_iff.1 hm
    obtain ⟨-, -, messages⟩ := h outer (List.mem_of_getElem? houter)
    exact ih messages hrest

end ProtoDecl.Descriptor
