import ProtoDecl.Proofs.Wire.RoundTrip

/-!
# The bytes of a file determine its descriptor

The set that is written for a file is read back as the record of its descriptor, so files with the
same bytes have the same records (`ofBytes?_encodeSet`).

A record keeps an index as a word, and words are scarcer than numbers.  But an index is a place in a
list of the same descriptor (`indexed_ofFile`), and a list is no longer than its bytes.  Hence a
record determines the descriptor, unless it takes two gigabytes (`FileDescriptor.record_inj`).
-/

namespace ProtoDecl.Descriptor

open Schema hiding Field
open Wire hiding Field

/-! ## Indices -/

/-- Whether all indices of a message are places in its list of groups, and all of the messages inside
it likewise.  The fields of an extension have none. -/
inductive MessageDescriptor.Indexed : MessageDescriptor → Prop
  | intro {m : MessageDescriptor}
      (fields : ∀ f ∈ m.fields, ∀ i ∈ f.oneofIndex, i < m.oneofs.length)
      (extensions : ∀ f ∈ m.extensions, f.oneofIndex = none)
      (nested : ∀ m' ∈ m.nested, m'.Indexed) : m.Indexed

/-- Whether all indices of a file are places in its lists. -/
structure FileDescriptor.Indexed (f : FileDescriptor) : Prop where
  messages : ∀ m ∈ f.messages, m.Indexed
  extensions : ∀ e ∈ f.extensions, e.oneofIndex = none
  publicDependencies : ∀ i ∈ f.publicDependencies, i < f.dependencies.length
  weakDependencies : ∀ i ∈ f.weakDependencies, i < f.dependencies.length

theorem oneofIndex_ofExtend {e : Extend} {d : FieldDescriptor} (h : d ∈ ofExtend e) :
    d.oneofIndex = none := by
  obtain ⟨f, -, rfl⟩ := List.mem_map.1 h
  rfl

/-- The descriptor of a field with a group of its own. -/
def presenceField (f : Schema.Field) (index : Nat) : FieldDescriptor :=
  { ofField f with oneofIndex := some index, tracksPresence := true }

/-- The descriptor of a field in a declared group. -/
def groupField (f : Schema.Field) (index : Nat) : FieldDescriptor :=
  { ofField f with oneofIndex := some index }

section Groups

variable {version3 : Bool} {index : Nat} {d : FieldDescriptor} {fs : List Schema.Field}
  {os : List Oneof}

/-- A plain field refers to a group exactly if it records its presence, and the groups of such
fields are counted from the first index. -/
theorem presence_ofPlainFields (h : d ∈ ofPlainFields version3 index fs) :
    (∃ f i, index ≤ i ∧ i < index + (fs.filter (tracksPresence version3)).length ∧
      d = presenceField f i) ∨ ∃ f, d = ofField f := by
  induction fs generalizing index with
  | nil => cases h
  | cons f fs ih =>
    rw [ofPlainFields] at h
    by_cases hf : tracksPresence version3 f = true
    · rw [if_pos hf] at h
      rw [List.filter_cons_of_pos hf, List.length_cons]
      rcases List.mem_cons.1 h with rfl | h
      · exact .inl ⟨f, index, Nat.le_refl index, by omega, rfl⟩
      · rcases ih h with ⟨f', i, hle, hlt, hd⟩ | hd
        · exact .inl ⟨f', i, by omega, by omega, hd⟩
        · exact .inr hd
    · rw [if_neg hf] at h
      rw [List.filter_cons_of_neg hf]
      rcases List.mem_cons.1 h with rfl | h
      · exact .inr ⟨f, rfl⟩
      · exact ih h

/-- The fields of declared groups refer to them, and the groups are counted from the first index. -/
theorem group_ofOneofs (h : d ∈ ofOneofs index os) :
    ∃ f i, index ≤ i ∧ i < index + os.length ∧ d = groupField f i := by
  induction os generalizing index with
  | nil => cases h
  | cons o os ih =>
    rw [ofOneofs] at h
    rw [List.length_cons]
    rcases List.mem_append.1 h with h | h
    · obtain ⟨f, -, rfl⟩ := List.mem_map.1 h
      exact ⟨f, index, Nat.le_refl index, by omega, rfl⟩
    · obtain ⟨f, i, hle, hlt, hd⟩ := ih h
      exact ⟨f, i, by omega, by omega, hd⟩

end Groups

theorem length_oneofNames (version3 : Bool) (m : Message) :
    (oneofNames version3 m).length =
      m.oneofs.length + (m.fields.filter (tracksPresence version3)).length := by
  simp [oneofNames]

theorem indexed_mapEntry (f : Schema.Field) : (mapEntry f).Indexed := by
  refine .intro (fun d hd i hi => ?_) (fun _ h => nomatch h) (fun _ h => nomatch h)
  obtain ⟨place, hplace, rfl⟩ := List.getElem_of_mem hd
  simp [mapEntry, entryField] at hi

theorem indexed_of_entryOf? {f : Schema.Field} {entry : MessageDescriptor}
    (h : entryOf? f = some entry) : entry.Indexed := by
  rw [entryOf?] at h
  split at h
  · cases h
    exact indexed_mapEntry f
  · cases h

/-- The indices in the descriptor of a message are places in its list of groups, and so are those in
the messages inside it. -/
theorem indexed_ofMessage (version3 : Bool) (m : Message) : (ofMessage version3 m).Indexed := by
  induction m using Message.induction with
  | step m ih =>
    have hlength := length_oneofNames version3 m
    rw [ofMessage_eq]
    refine .intro (fun d hd i hi => ?_) (fun d hd => ?_) (fun m' hm' => ?_)
    · dsimp only
      rcases List.mem_append.1 hd with hd | hd
      · rcases presence_ofPlainFields hd with ⟨f, i', -, hlt, rfl⟩ | ⟨f, rfl⟩
        · cases hi
          omega
        · cases hi
      · obtain ⟨f, i', -, hlt, rfl⟩ := group_ofOneofs hd
        cases hi
        omega
    · obtain ⟨e, -, hd⟩ := List.mem_flatMap.1 hd
      exact oneofIndex_ofExtend hd
    · rcases List.mem_append.1 hm' with hm' | hm'
      · obtain ⟨f, -, hf⟩ := List.mem_filterMap.1 hm'
        exact indexed_of_entryOf? hf
      · obtain ⟨m₁, hm₁, rfl⟩ := List.mem_map.1 hm'
        exact ih m₁ hm₁

theorem lt_of_mem_placesOf {modifier : ImportModifier} {imports : List Import} {i : Nat}
    (h : i ∈ placesOf modifier imports) : i < imports.length := by
  obtain ⟨⟨decl, place⟩, hmem, hsome⟩ := List.mem_filterMap.1 h
  have hlt := List.snd_lt_of_mem_zipIdx hmem
  dsimp only at hsome
  split at hsome
  · cases hsome
    simpa using hlt
  · cases hsome

/-- Every index in the descriptor of a file is a place in a list of the same descriptor. -/
theorem indexed_ofFile (f : File) (name : String) : (ofFile f name).Indexed where
  messages := fun m hm => by
    have hmap : m ∈ f.messages.map (ofMessage (isVersion3 f)) := ofMessages_eq _ f.messages ▸ hm
    obtain ⟨m₁, -, rfl⟩ := List.mem_map.1 hmap
    exact indexed_ofMessage _ m₁
  extensions := fun d hd => by
    obtain ⟨e, -, hd⟩ := List.mem_flatMap.1 hd
    exact oneofIndex_ofExtend hd
  publicDependencies := fun i hi => by
    simpa [ofFile] using lt_of_mem_placesOf hi
  weakDependencies := fun i hi => by
    simpa [ofFile] using lt_of_mem_placesOf hi

/-! ## What a record determines -/

section Determined

variable {α β : Type}

theorem map_inj_of_mem {r : α → β} {l l' : List α}
    (hinj : ∀ a ∈ l, ∀ b ∈ l', r a = r b → a = b) (h : l.map r = l'.map r) : l = l' := by
  induction l generalizing l' with
  | nil => exact (List.map_eq_nil_iff.1 h.symm).symm
  | cons a l ih =>
    cases l' with
    | nil => cases h
    | cons b l' =>
      obtain ⟨hab, hrest⟩ := List.cons.inj h
      rw [hinj a List.mem_cons_self b List.mem_cons_self hab,
        ih (fun a' ha' b' hb' => hinj a' (List.mem_cons_of_mem _ ha') b'
          (List.mem_cons_of_mem _ hb')) hrest]

theorem option_inj_of_mem {r : α → β} {o o' : Option α}
    (hinj : ∀ a ∈ o, ∀ b ∈ o', r a = r b → a = b) (h : o.map r = o'.map r) : o = o' := by
  cases o with
  | none => exact (Option.map_eq_none_iff.1 h.symm).symm
  | some a =>
    cases o' with
    | none => cases h
    | some b => rw [hinj a rfl b rfl (Option.some_inj.1 h)]

theorem ite_some_inj {b c : Bool} {a : α}
    (h : (if b then some a else none) = if c then some a else none) : b = c := by
  cases b <;> cases c <;> first | rfl | cases h

theorem ofNat_inj {a b : Nat} (ha : a < 2147483648) (hb : b < 2147483648)
    (h : Int32.ofNat a = Int32.ofNat b) : a = b :=
  Nat.le_antisymm ((Int32.ofNat_le_iff_le ha hb).1 (h ▸ Int32.le_refl _))
    ((Int32.ofNat_le_iff_le hb ha).1 (h ▸ Int32.le_refl _))

theorem NumberSpan.record_inj {r s : NumberSpan} (h : r.record = s.record) : r = s := by
  cases r
  cases s
  simpa [record] using h

theorem Cardinality.code_inj {c d : Cardinality} (h : c.code = d.code) : c = d := by
  cases c <;> cases d <;> first | rfl | cases h

theorem TypeCode.code_inj {t u : TypeCode} (h : t.code = u.code) : t = u := by
  cases t with
  | message =>
    cases u with
    | message => rfl
    | scalar s => cases s <;> cases h
  | scalar s =>
    cases u with
    | message => cases s <;> cases h
    | scalar s' => cases s <;> cases s' <;> first | rfl | cases h

theorem FieldDescriptor.record_inj {f g : FieldDescriptor}
    (hf : ∀ i ∈ f.oneofIndex, i < 2147483648) (hg : ∀ i ∈ g.oneofIndex, i < 2147483648)
    (h : f.record = g.record) : f = g := by
  cases f
  cases g
  simp only [record, Record.Field.mk.injEq, Option.some_inj] at h
  obtain ⟨hname, hextendee, hnumber, hlabel, htype, htypeName, hdefault, hoptions, hindex, hjson,
    hpresence⟩ := h
  have hlabel := Cardinality.code_inj (ofNat_inj (Cardinality.code_lt _) (Cardinality.code_lt _) hlabel)
  have htype := option_inj_of_mem
    (fun t _ u _ htu => TypeCode.code_inj (ofNat_inj t.code_lt u.code_lt htu)) htype
  have hindex := option_inj_of_mem (fun i hi j hj => ofNat_inj (hf i hi) (hg j hj)) hindex
  have hpresence := ite_some_inj hpresence
  rw [FieldDescriptor.mk.injEq]
  exact ⟨hname, hextendee, hnumber, hlabel, htype, htypeName, hdefault, hoptions, hindex, hjson,
    hpresence⟩

/-- Fields that belong to no group of alternatives. -/
theorem FieldDescriptor.map_record_inj {fs gs : List FieldDescriptor}
    (hfs : ∀ f ∈ fs, f.oneofIndex = none) (hgs : ∀ g ∈ gs, g.oneofIndex = none)
    (h : fs.map record = gs.map record) : fs = gs := by
  have hplain : ∀ {f : FieldDescriptor}, f.oneofIndex = none →
      ∀ i ∈ f.oneofIndex, i < 2147483648 := by
    intro f hf i hi
    rw [hf] at hi
    cases hi
  exact map_inj_of_mem (fun f hf g hg => record_inj (hplain (hfs f hf)) (hplain (hgs g hg))) h

theorem EnumValueDescriptor.record_inj {v w : EnumValueDescriptor} (h : v.record = w.record) :
    v = w := by
  cases v
  cases w
  simpa [record] using h

theorem EnumDescriptor.record_inj {e e' : EnumDescriptor} (h : e.record = e'.record) : e = e' := by
  cases e
  cases e'
  simp only [record, Record.Enum.mk.injEq, Option.some_inj] at h
  obtain ⟨hname, hvalues, hranges, hnames⟩ := h
  have hvalues := map_inj_of_mem (fun v _ w _ => EnumValueDescriptor.record_inj) hvalues
  have hranges := map_inj_of_mem (fun r _ s _ => NumberSpan.record_inj) hranges
  rw [EnumDescriptor.mk.injEq]
  exact ⟨hname, hvalues, hranges, hnames⟩

theorem MethodDescriptor.record_inj {m m' : MethodDescriptor} (h : m.record = m'.record) :
    m = m' := by
  cases m
  cases m'
  simpa [record] using h

theorem ServiceDescriptor.record_inj {s s' : ServiceDescriptor} (h : s.record = s'.record) :
    s = s' := by
  cases s
  cases s'
  simp only [record, Record.Service.mk.injEq, Option.some_inj] at h
  obtain ⟨hname, hmethods⟩ := h
  have hmethods := map_inj_of_mem (fun m _ m' _ => MethodDescriptor.record_inj) hmethods
  rw [ServiceDescriptor.mk.injEq]
  exact ⟨hname, hmethods⟩

/-! ## Lengths -/

/-- Every field takes a byte at least. -/
theorem Wire.length_le_encode (fields : List Wire.Field) :
    fields.length ≤ (encode fields).length := by
  induction fields with
  | nil => exact Nat.zero_le _
  | cons f fields ih =>
    have hpos : 0 < (encodeField f).length := List.length_pos_iff.2 (encodeField_ne_nil f)
    rw [encode_cons, List.length_append, List.length_cons]
    omega

theorem MessageDescriptor.length_oneofs_le (m : MessageDescriptor) :
    m.oneofs.length ≤ (encode m.wire).length := by
  refine Nat.le_trans ?_ (length_le_encode m.wire)
  rw [m.wire_eq]
  simp only [List.length_append, List.length_map]
  omega

theorem MessageDescriptor.length_nested_lt {m m' : MessageDescriptor} (h : m' ∈ m.nested) :
    (encode m'.wire).length < (encode m.wire).length := by
  have hmem : message 3 m'.wire ∈ m.wire := by
    rw [m.wire_eq]
    simp only [List.mem_append, List.mem_map]
    exact .inl (.inl (.inl (.inl (.inl (.inl (.inl (.inr ⟨m', h, rfl⟩)))))))
  exact length_lt_encode hmem rfl

theorem FileDescriptor.length_dependencies_le (f : FileDescriptor) :
    f.dependencies.length ≤ (encode f.wire).length := by
  refine Nat.le_trans ?_ (length_le_encode f.wire)
  simp only [wire, List.length_append, List.length_map]
  omega

theorem FileDescriptor.length_message_lt {f : FileDescriptor} {m : MessageDescriptor}
    (h : m ∈ f.messages) : (encode m.wire).length < (encode f.wire).length := by
  have hmem : message 4 m.wire ∈ f.wire := by
    simp only [wire, List.mem_append, List.mem_map]
    exact .inl (.inl (.inl (.inl (.inl (.inl (.inr ⟨m, h, rfl⟩))))))
  exact length_lt_encode hmem rfl

/-! ## Messages and files -/

/-- A record determines the message, unless it takes two gigabytes. -/
theorem MessageDescriptor.record_inj {m m' : MessageDescriptor} (hm : m.Indexed) (hm' : m'.Indexed)
    (hlength : (encode m.wire).length < 2147483648)
    (hlength' : (encode m'.wire).length < 2147483648) (h : m.record = m'.record) : m = m' := by
  induction hm generalizing m' with
  | @intro m hfields hextensions hnested ih =>
    obtain ⟨hfields', hextensions', hnested'⟩ := hm'
    have hgroups := m.length_oneofs_le
    have hgroups' := m'.length_oneofs_le
    have hinner : ∀ a ∈ m.nested, ∀ b ∈ m'.nested, a.record = b.record → a = b := by
      intro a ha b hb hab
      exact ih a ha (hnested' b hb) (Nat.lt_trans (length_nested_lt ha) hlength)
        (Nat.lt_trans (length_nested_lt hb) hlength') hab
    rw [m.record_eq, m'.record_eq] at h
    simp only [Record.Message.mk.injEq, Option.some_inj] at h
    obtain ⟨hname, hfield, hnest, henums, hranges, hextension, hentry, honeofs, hreserved, hnames⟩ := h
    have hfield : m.fields = m'.fields := map_inj_of_mem (fun f hf g hg =>
      FieldDescriptor.record_inj
        (fun i hi => Nat.lt_of_lt_of_le (hfields f hf i hi) (by omega))
        (fun i hi => Nat.lt_of_lt_of_le (hfields' g hg i hi) (by omega))) hfield
    have hextension := FieldDescriptor.map_record_inj hextensions hextensions' hextension
    have hnest := map_inj_of_mem hinner hnest
    have henums := map_inj_of_mem (fun _ _ _ _ => EnumDescriptor.record_inj) henums
    have hranges := map_inj_of_mem (fun _ _ _ _ => NumberSpan.record_inj) hranges
    have hentry := ite_some_inj hentry
    have honeofs : m.oneofs = m'.oneofs := map_inj_of_mem (fun a _ b _ hab => by
      simpa using hab) honeofs
    have hreserved := map_inj_of_mem (fun _ _ _ _ => NumberSpan.record_inj) hreserved
    cases m
    cases m'
    rw [MessageDescriptor.mk.injEq]
    exact ⟨hname, hfield, hnest, henums, hranges, hextension, hentry, honeofs, hreserved, hnames⟩

/-- A record determines the file, unless it takes two gigabytes. -/
theorem FileDescriptor.record_inj {f g : FileDescriptor} (hf : f.Indexed) (hg : g.Indexed)
    (hlength : (encode f.wire).length < 2147483648)
    (hlength' : (encode g.wire).length < 2147483648) (h : f.record = g.record) : f = g := by
  have hfiles := f.length_dependencies_le
  have hfiles' := g.length_dependencies_le
  have hinner : ∀ a ∈ f.messages, ∀ b ∈ g.messages, a.record = b.record → a = b := by
    intro a ha b hb hab
    exact MessageDescriptor.record_inj (hf.messages a ha) (hg.messages b hb)
      (Nat.lt_trans (length_message_lt ha) hlength) (Nat.lt_trans (length_message_lt hb) hlength') hab
  obtain ⟨-, hextensions, hpublics, hweaks⟩ := hf
  obtain ⟨-, hextensions', hpublics', hweaks'⟩ := hg
  simp only [record, Record.File.mk.injEq, Option.some_inj] at h
  obtain ⟨hname, hpackage, hdependencies, hmessages, henums, hservices, hextension, hpublic, hweak,
    hedition⟩ := h
  have hmessages := map_inj_of_mem hinner hmessages
  have henums := map_inj_of_mem (fun _ _ _ _ => EnumDescriptor.record_inj) henums
  have hservices := map_inj_of_mem (fun _ _ _ _ => ServiceDescriptor.record_inj) hservices
  have hextension := FieldDescriptor.map_record_inj hextensions hextensions' hextension
  have hpublic : f.publicDependencies = g.publicDependencies := map_inj_of_mem (fun i hi j hj =>
    ofNat_inj (Nat.lt_of_lt_of_le (hpublics i hi) (by omega))
      (Nat.lt_of_lt_of_le (hpublics' j hj) (by omega))) hpublic
  have hweak : f.weakDependencies = g.weakDependencies := map_inj_of_mem (fun i hi j hj =>
    ofNat_inj (Nat.lt_of_lt_of_le (hweaks i hi) (by omega))
      (Nat.lt_of_lt_of_le (hweaks' j hj) (by omega))) hweak
  cases f
  cases g
  rw [FileDescriptor.mk.injEq]
  exact ⟨hname, hpackage, hdependencies, hmessages, henums, hservices, hextension, hpublic, hweak,
    hedition⟩

end Determined

/-- The bytes of a file are read back as the record of its descriptor: by a reader that knows no
limit whatever their number, and by one of 64 bits if it can count them.  So files with the same
bytes have the same records; and below two gigabytes, the same descriptors. -/
theorem ofBytes?_encodeSet (f : File) (name : String) :
    (∀ width : Width, width.Holds (encodeSet f name).length →
      Record.FileSet.ofBytes? width (encodeSet f name) = some ⟨[(ofFile f name).record]⟩) ∧
    (∀ g other, encodeSet g other = encodeSet f name →
      (ofFile g other).record = (ofFile f name).record) ∧
    (∀ g other, encodeSet g other = encodeSet f name → (encodeSet f name).length < 2147483648 →
      ofFile g other = ofFile f name) := by
  have hread : ∀ f name (width : Width), width.Holds (encodeSet f name).length →
      Record.FileSet.ofBytes? width (encodeSet f name) = some ⟨[(ofFile f name).record]⟩ :=
    fun f name width h => (ofFile f name).ofBytes?_set h
  have hrecord : ∀ g other, encodeSet g other = encodeSet f name →
      (ofFile g other).record = (ofFile f name).record := by
    intro g other hbytes
    have hf := hread f name .unlimited trivial
    have hg := hread g other .unlimited trivial
    rw [hbytes, hf] at hg
    simpa using hg.symm
  refine ⟨hread f name, hrecord, fun g other hbytes hlength => ?_⟩
  have hshort : ∀ f name, (encodeSet f name).length < 2147483648 →
      (encode (ofFile f name).wire).length < 2147483648 := fun f name h =>
    Nat.lt_trans (length_lt_encode (List.mem_singleton_self _) rfl) h
  exact FileDescriptor.record_inj (indexed_ofFile g other) (indexed_ofFile f name)
    (hshort g other (hbytes ▸ hlength)) (hshort f name hlength) (hrecord g other hbytes)

/-- A file with a negative number, as a reader of 64 bits reads it.  Where the file stands leaves no
trace in the bytes. -/
theorem ofBytes?_encodeSet_negative :
    let s : Span := ⟨1, 1, 0, 1⟩
    let value : EnumValue := ⟨⟨"A", s⟩, ⟨"-1", s⟩, [], s⟩
    let f : File := { enums := [⟨⟨"E", s⟩, [value], [], [], s⟩] }
    Record.FileSet.ofBytes? .word (encodeSet f "a.proto") =
        some ⟨[(ofFile f "a.proto").record]⟩ ∧
      encodeSet { f with span := s } "a.proto" = encodeSet f "a.proto" ∧
      (ofFile { f with span := s } "a.proto").record = (ofFile f "a.proto").record ∧
      ofFile { f with span := s } "a.proto" = ofFile f "a.proto" := by
  intro s value f
  have hlength : (encodeSet f "a.proto").length = 32 := by decide +kernel
  have hword : Width.Holds .word (encodeSet f "a.proto").length := by
    rw [hlength]
    exact (by decide : 32 < UInt64.size)
  obtain ⟨hread, hrecord, hdescriptor⟩ := ofBytes?_encodeSet f "a.proto"
  refine ⟨hread .word hword, rfl, hrecord { f with span := s } "a.proto" rfl,
    hdescriptor { f with span := s } "a.proto" rfl ?_⟩
  rw [hlength]
  decide

end ProtoDecl.Descriptor
