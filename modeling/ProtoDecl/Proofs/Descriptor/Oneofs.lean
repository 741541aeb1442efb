import ProtoDecl.Proofs.Fresh
import ProtoDecl.Proofs.Output.Members
import ProtoDecl.Proofs.Wire.Determined

/-!
# Groups of alternatives

A descriptor lists the declared groups of a message, and behind them one group for each field that
records its presence.  A field refers to its group by an index, which is given out before the group
is listed.

`Grouped` says that indices and groups fit together.  An index below the number of declared groups
belongs to the fields of that declared group, in their order; every other index belongs to a single
field that records its presence.  The name of the group of such a field is the first of `_name`,
`X_name`, `XX_name`, … that no declared group has.

The lists of fields are made by two recursions that count indices.  What is filtered from them by an
index is found by following the recursion (`fieldsOf_ofPlainFields`, `fieldsOf_ofOneofs`).
-/

namespace ProtoDecl.Descriptor

open Schema
open TypeScript (messageAt? descriptorAt? descriptorAt?_map)

/-! ## Names of groups -/

/-- The name that is tried for the group of a field after `n` clashes. -/
def presenceCandidate (field : String) (n : Nat) : String :=
  String.ofList (List.replicate n 'X') ++ "_" ++ field

/-- The underscore ends the row of letters X, whatever the field is named. -/
theorem presenceCandidate_inj {field field' : String} {n n' : Nat}
    (h : presenceCandidate field n = presenceCandidate field' n') : n = n' ∧ field = field' := by
  have hlists : List.replicate n 'X' ++ '_' :: field.toList =
      List.replicate n' 'X' ++ '_' :: field'.toList := by
    simpa [presenceCandidate] using congrArg String.toList h
  clear h
  induction n generalizing n' with
  | zero =>
    cases n' with
    | zero => exact ⟨rfl, String.toList_inj.1 (by simpa using hlists)⟩
    | succ n' => simp [List.replicate_succ] at hlists
  | succ n ih =>
    cases n' with
    | zero => simp [List.replicate_succ] at hlists
    | succ n' =>
      have hrest : List.replicate n 'X' ++ '_' :: field.toList =
          List.replicate n' 'X' ++ '_' :: field'.toList := by
        simpa [List.replicate_succ] using hlists
      obtain ⟨rfl, hfield⟩ := ih hrest
      exact ⟨rfl, hfield⟩

/-- The group of a field gets the first name that is not declared. -/
theorem presenceName_firstFree (declared : List String) (field : String) :
    ∃ n ≤ declared.length, FirstFree declared (presenceCandidate field) n ∧
      presenceName declared field = presenceCandidate field n := by
  have hinj : Function.Injective (presenceCandidate field) := fun _ _ h =>
    (presenceCandidate_inj h).1
  obtain ⟨n, hle, hfirst⟩ := exists_firstFree declared hinj
  refine ⟨n, hle, hfirst, ?_⟩
  change (((List.range (declared.length + 1)).map (presenceCandidate field)).find? _).getD _ = _
  rw [find?_firstFree hfirst (Nat.lt_succ_of_le hle)]
  rfl

/-! ## Fields that record their presence -/

/-- The fields of a message that record their presence, under version 3 of the language or not. -/
def presenceFields (version3 : Bool) (m : Message) : List Field :=
  if version3 then m.fields.filter fun f => f.label? = some .optional else []

theorem filter_tracksPresence (version3 : Bool) (m : Message) :
    m.fields.filter (tracksPresence version3) = presenceFields version3 m := by
  cases version3 with
  | false => simp [tracksPresence, presenceFields]
  | true =>
    refine List.filter_congr fun f _ => ?_
    rw [tracksPresence, Bool.true_and, beq_eq_decide]

variable {version3 : Bool} {index i j : Nat} {fs : List Field} {os : List Oneof}

/-! ## Fields of a group -/

/-- The fields that refer to the group with the given index. -/
def fieldsOf (i : Nat) (ds : List FieldDescriptor) : List FieldDescriptor :=
  ds.filter fun d => d.oneofIndex = some i

theorem fieldsOf_append (ds ds' : List FieldDescriptor) :
    fieldsOf i (ds ++ ds') = fieldsOf i ds ++ fieldsOf i ds' :=
  List.filter_append ds ds'

/-- The groups of plain fields come behind the first index. -/
theorem fieldsOf_ofPlainFields_of_lt (h : i < index) :
    fieldsOf i (ofPlainFields version3 index fs) = [] := by
  refine List.filter_eq_nil_iff.2 fun d hd => ?_
  rcases presence_ofPlainFields hd with ⟨f, i', hle, -, rfl⟩ | ⟨f, rfl⟩
  · simp only [presenceField, decide_eq_true_eq, Option.some.injEq]
    omega
  · simp [ofField]

/-- A group behind the declared ones has one field, the one that it was made for. -/
theorem fieldsOf_ofPlainFields {f : Field}
    (h : (fs.filter (tracksPresence version3))[i]? = some f) :
    fieldsOf (index + i) (ofPlainFields version3 index fs) = [presenceField f (index + i)] := by
  induction fs generalizing index i with
  | nil => simp at h
  | cons f' fs ih =>
    rw [ofPlainFields]
    by_cases hf' : tracksPresence version3 f' = true
    · rw [List.filter_cons_of_pos hf'] at h
      rw [if_pos hf', fieldsOf]
      cases i with
      | zero =>
        cases h
        rw [List.filter_cons_of_pos (by simp)]
        exact congrArg _ (fieldsOf_ofPlainFields_of_lt (Nat.lt_succ_self index))
      | succ i =>
        rw [List.filter_cons_of_neg (by simp), ← Nat.succ_add_eq_add_succ]
        exact ih h
    · rw [List.filter_cons_of_neg hf'] at h
      rw [if_neg hf', fieldsOf, List.filter_cons_of_neg (by simp [ofField])]
      exact ih h

/-- Only the declared groups have fields that were declared in a group. -/
theorem fieldsOf_ofOneofs_of_not_mem (h : ¬(index ≤ i ∧ i < index + os.length)) :
    fieldsOf i (ofOneofs index os) = [] := by
  refine List.filter_eq_nil_iff.2 fun d hd => ?_
  obtain ⟨f, i', hle, hlt, rfl⟩ := group_ofOneofs hd
  simp only [groupField, decide_eq_true_eq, Option.some.injEq]
  rintro rfl
  exact h ⟨hle, hlt⟩

/-- A declared group has the fields that were declared in it. -/
theorem fieldsOf_ofOneofs {o : Oneof} (h : os[j]? = some o) :
    fieldsOf (index + j) (ofOneofs index os) =
      o.fields.map fun f => groupField f (index + j) := by
  induction os generalizing index j with
  | nil => simp at h
  | cons o' os ih =>
    rw [ofOneofs, fieldsOf_append]
    cases j with
    | zero =>
      cases h
      rw [fieldsOf_ofOneofs_of_not_mem (by omega), List.append_nil]
      exact List.filter_eq_self.2 fun d hd => by
        obtain ⟨f, -, rfl⟩ := List.mem_map.1 hd
        simp
    | succ j =>
      have hhead : fieldsOf (index + (j + 1))
          (o'.fields.map fun f => { ofField f with oneofIndex := some index }) = [] := by
        refine List.filter_eq_nil_iff.2 fun d hd => ?_
        obtain ⟨f, -, rfl⟩ := List.mem_map.1 hd
        simp
      rw [hhead, List.nil_append, ← Nat.succ_add_eq_add_succ]
      exact ih h

/-! ## Messages -/

/-- Whether the groups and the indices in the descriptor of a message fit together, and are those of
the message. -/
structure Grouped (version3 : Bool) (m : Message) (d : MessageDescriptor) : Prop where
  /-- There are as many groups as are declared, and as there are fields with one of their own. -/
  length : d.oneofs.length = m.oneofs.length + (presenceFields version3 m).length
  declared : ∀ (j : Nat) (o : Oneof), m.oneofs[j]? = some o → d.oneofs[j]? = some o.name.text
  /-- The search for a name ends, at the latest when all declared names have been met. -/
  named : ∀ (i : Nat) (f : Field), (presenceFields version3 m)[i]? = some f → ∃ n ≤ m.oneofs.length,
    FirstFree (m.oneofs.map fun o => o.name.text) (presenceCandidate f.name.text) n ∧
      d.oneofs[m.oneofs.length + i]? = some (presenceCandidate f.name.text n)
  distinct : ((presenceFields version3 m).map fun f => f.name.text).Nodup →
    (d.oneofs.drop m.oneofs.length).Nodup
  valid : ∀ f ∈ d.fields ++ d.extensions, ∀ i, f.oneofIndex = some i → i < d.oneofs.length
  members : ∀ (j : Nat) (o : Oneof), m.oneofs[j]? = some o →
    fieldsOf j d.fields = o.fields.map fun f => groupField f j
  alone : ∀ (i : Nat) (f : Field), (presenceFields version3 m)[i]? = some f →
    fieldsOf (m.oneofs.length + i) d.fields = [presenceField f (m.oneofs.length + i)]
  /-- Only the fields of groups behind the declared ones record their presence. -/
  presence : ∀ f ∈ d.fields ++ d.extensions,
    f.tracksPresence = true ↔ ∃ i, m.oneofs.length ≤ i ∧ f.oneofIndex = some i

theorem oneofs_ofMessage (version3 : Bool) (m : Message) :
    (ofMessage version3 m).oneofs = (m.oneofs.map fun o => o.name.text) ++
      (presenceFields version3 m).map fun f =>
        presenceName (m.oneofs.map fun o => o.name.text) f.name.text := by
  rw [ofMessage_eq, ← filter_tracksPresence]
  rfl

theorem fields_ofMessage (version3 : Bool) (m : Message) :
    (ofMessage version3 m).fields =
      ofPlainFields version3 m.oneofs.length m.fields ++ ofOneofs 0 m.oneofs := by
  rw [ofMessage_eq]

theorem presence_of_mem_extensions {m : Message}
    (h : d ∈ (ofMessage version3 m).extensions) :
    d.tracksPresence = false ∧ d.oneofIndex = none := by
  rw [ofMessage_eq] at h
  obtain ⟨e, -, h⟩ := List.mem_flatMap.1 h
  obtain ⟨f, -, rfl⟩ := List.mem_map.1 h
  exact ⟨rfl, rfl⟩

/-- Names of groups differ if the names of their fields do. -/
theorem nodup_presenceNames (declared : List String)
    (h : (fs.map fun f => f.name.text).Nodup) :
    (fs.map fun f => presenceName declared f.name.text).Nodup := by
  have hinj : Function.Injective (presenceName declared) := by
    intro field field' heq
    obtain ⟨n, -, -, hn⟩ := presenceName_firstFree declared field
    obtain ⟨n', -, -, hn'⟩ := presenceName_firstFree declared field'
    rw [hn, hn'] at heq
    exact (presenceCandidate_inj heq).2
  have hmap := h.map hinj
  rwa [List.map_map] at hmap

theorem grouped_ofMessage (version3 : Bool) (m : Message) :
    Grouped version3 m (ofMessage version3 m) where
  length := by
    rw [oneofs_ofMessage, List.length_append, List.length_map, List.length_map]
  declared := fun j o hj => by
    have hlt : j < m.oneofs.length := (List.getElem?_eq_some_iff.1 hj).1
    rw [oneofs_ofMessage, List.getElem?_append_left (by simpa using hlt), List.getElem?_map, hj]
    rfl
  named := fun i f hi => by
    obtain ⟨n, hle, hfirst, hn⟩ :=
      presenceName_firstFree (m.oneofs.map fun o => o.name.text) f.name.text
    rw [List.length_map] at hle
    refine ⟨n, hle, hfirst, ?_⟩
    rw [oneofs_ofMessage, List.getElem?_append_right (by simp), List.length_map,
      Nat.add_sub_cancel_left, List.getElem?_map, hi, Option.map_some, hn]
  distinct := fun hnodup => by
    rw [oneofs_ofMessage, List.drop_left' (List.length_map ..)]
    exact nodup_presenceNames _ hnodup
  valid := fun f hf i hi => by
    obtain ⟨hfields, hextensions, -⟩ := indexed_ofMessage version3 m
    rcases List.mem_append.1 hf with hf | hf
    · exact hfields f hf i hi
    · rw [hextensions f hf] at hi
      cases hi
  members := fun j o hj => by
    have hlt : j < m.oneofs.length := (List.getElem?_eq_some_iff.1 hj).1
    have hgroup : fieldsOf (0 + j) (ofOneofs 0 m.oneofs) =
        o.fields.map fun f => groupField f (0 + j) := fieldsOf_ofOneofs hj
    rw [Nat.zero_add] at hgroup
    rw [fields_ofMessage, fieldsOf_append, fieldsOf_ofPlainFields_of_lt hlt, hgroup,
      List.nil_append]
  alone := fun i f hi => by
    rw [← filter_tracksPresence] at hi
    rw [fields_ofMessage, fieldsOf_append, fieldsOf_ofPlainFields hi,
      fieldsOf_ofOneofs_of_not_mem (by omega), List.append_nil]
  presence := fun f hf => by
    rcases List.mem_append.1 hf with hf | hf
    · rw [fields_ofMessage] at hf
      rcases List.mem_append.1 hf with hf | hf
      · rcases presence_ofPlainFields hf with ⟨f', i, hle, -, rfl⟩ | ⟨f', rfl⟩
        · exact iff_of_true rfl ⟨i, hle, rfl⟩
        · simp [ofField]
      · obtain ⟨f', i, -, hlt, rfl⟩ := group_ofOneofs hf
        refine iff_of_false Bool.false_ne_true ?_
        rintro ⟨i', hle, hi⟩
        have heq : i = i' := Option.some.inj hi
        omega
    · obtain ⟨hpresence, hindex⟩ := presence_of_mem_extensions hf
      simp [hpresence, hindex]

/-- The groups and the indices fit together in the descriptor of a message, and in those of the
messages declared inside it, at any depth. -/
theorem oneofs_grouped (version3 : Bool) (m inner : Message) (path : List Nat)
    (h : messageAt? [m] 0 path = some inner) :
    ∃ d, descriptorAt? [ofMessage version3 m] 0 path = some d ∧ Grouped version3 inner d := by
  refine ⟨ofMessage version3 inner, ?_, grouped_ofMessage version3 inner⟩
  have hat := descriptorAt?_map version3 [m] 0 path
  rwa [h] at hat

/-- Two declared groups have the names that the group of a field would get first. -/
theorem oneofs_grouped_clash :
    let s : Span := ⟨1, 1, 0, 1⟩
    let field (label : Option FieldLabel) (name : String) : Field :=
      ⟨label, ⟨⟨"bool", s⟩, [], s⟩, ⟨name, s⟩, ⟨"1", s⟩, [], s⟩
    let group (name member : String) : Oneof := ⟨⟨name, s⟩, [field none member], [], s⟩
    let inner : Message := ⟨⟨"N", s⟩, [field (some ⟨.optional, s⟩) "a", field none "b",
      field (some ⟨.optional, s⟩) "c"], [group "_a" "d", group "X_a" "e"], [], [], [], [], none, [], s⟩
    let outer : Message := ⟨⟨"M", s⟩, [], [], [], [inner], [], [], none, [], s⟩
    ∃ d, descriptorAt? [ofMessage true outer] 0 [0] = some d ∧ Grouped true inner d ∧
      d.oneofs = ["_a", "X_a", "XX_a", "_c"] ∧
      d.fields.map (fun f => f.oneofIndex) = [some 2, none, some 3, some 0, some 1] := by
  intro s field group inner outer
  obtain ⟨d, hd, hgrouped⟩ := oneofs_grouped true outer inner [0] rfl
  have hlists : (descriptorAt? [ofMessage true outer] 0 [0]).map
      (fun d => (d.oneofs, d.fields.map fun f => f.oneofIndex)) =
      some (["_a", "X_a", "XX_a", "_c"], [some 2, none, some 3, some 0, some 1]) := by
    decide +kernel
  rw [hd, Option.map_some, Option.some.injEq, Prod.mk.injEq] at hlists
  exact ⟨d, hd, hgrouped, hlists⟩

end ProtoDecl.Descriptor
