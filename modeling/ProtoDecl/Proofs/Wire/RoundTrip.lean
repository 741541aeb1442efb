import ProtoDecl.Proofs.Nesting
import ProtoDecl.Proofs.Wire.Records

/-!
# Reading descriptors back

Every sort of descriptor is read back from its bytes as its record, at every depth of messages inside
messages, and so is the set that holds one file (`FileDescriptor.ofBytes?_set`).

A record is read number by number.  What stands under a number is found by `entries`, which passes
over everything else that was written; `one?_message` and `many?_message` then read what stands
there, given that the inner messages are read.  An inner message is shorter than the outer one, so a
reader that can hold the length of the whole can hold all lengths inside.
-/

namespace ProtoDecl.Descriptor

open Wire

namespace Wire

variable {α β : Type} {width : Width} {n : Nat} {fields : List Field}

/-! ## Values -/

theorem asText?_text (s : String) : asText? (text n s).value = some s := by
  change String.fromUTF8? ⟨s.toUTF8.data.toList.toArray⟩ = some s
  rw [Array.toArray_toList]
  exact dif_pos s.isValidUTF8

/-- Cutting a word that was extended to 64 bits gives the word again. -/
theorem asInt32?_int32 (i : Int32) : asInt32? (int32 n i).value = some i := by
  change some (Int32.ofNat (i.toInt % UInt64.size).toNat) = some i
  have hnonneg : 0 ≤ i.toInt % (UInt64.size : Int) := Int.emod_nonneg _ (by decide)
  have hdvd : (Int32.size : Int) ∣ (UInt64.size : Int) := by decide
  rw [Option.some_inj, ← Int32.toInt_inj, Int32.toInt_ofNat', Int.toNat_of_nonneg hnonneg,
    ← Int.emod_bmod, Int.emod_emod_of_dvd _ hdvd, Int.emod_bmod]
  exact i.toInt_bmod_size

theorem asInt32?_natural (v : Nat) : asInt32? (natural n v).value = some (Int32.ofNat v) :=
  rfl

theorem asFlag?_flag (b : Bool) : asFlag? (flag n b).value = some b := by
  cases b <;> rfl

/-! ## Proper fields -/

/-- Whether a number is one that a field may have. -/
def IsNumber (n : Nat) : Prop :=
  0 < n ∧ n < 536870912

@[simp] theorem proper_text (s : String) : (text n s).Proper ↔ IsNumber n :=
  ⟨fun h => ⟨h.1, h.2⟩, fun h => ⟨h.1, h.2, fun _ heq => nomatch heq⟩⟩

@[simp] theorem proper_message : (message n fields).Proper ↔ IsNumber n :=
  ⟨fun h => ⟨h.1, h.2⟩, fun h => ⟨h.1, h.2, fun _ heq => nomatch heq⟩⟩

@[simp] theorem proper_natural {v : Nat} :
    (natural n v).Proper ↔ IsNumber n ∧ v < UInt64.size := by
  refine ⟨fun h => ⟨⟨h.1, h.2⟩, h.3 v rfl⟩, fun ⟨h, hv⟩ => ⟨h.1, h.2, fun m heq => ?_⟩⟩
  cases heq
  exact hv

@[simp] theorem proper_int32 (i : Int32) : (int32 n i).Proper ↔ IsNumber n := by
  have hnonneg : 0 ≤ i.toInt % (UInt64.size : Int) := Int.emod_nonneg _ (by decide)
  have hlt : i.toInt % (UInt64.size : Int) < (UInt64.size : Int) := Int.emod_lt_of_pos _ (by decide)
  exact proper_natural.trans (and_iff_left ((Int.toNat_lt hnonneg).2 hlt))

@[simp] theorem proper_index (place : Nat) : (index n place).Proper ↔ IsNumber n :=
  proper_int32 _

@[simp] theorem proper_flag (b : Bool) : (flag n b).Proper ↔ IsNumber n :=
  proper_natural.trans (and_iff_left (by cases b <;> decide))

@[simp] theorem number_text (s : String) : (text n s).number = n := rfl
@[simp] theorem number_message : (message n fields).number = n := rfl
@[simp] theorem number_natural (v : Nat) : (natural n v).number = n := rfl
@[simp] theorem number_int32 (i : Int32) : (int32 n i).number = n := rfl
@[simp] theorem number_index (place : Nat) : (index n place).number = n := rfl
@[simp] theorem number_flag (b : Bool) : (flag n b).number = n := rfl

/-- Whether all fields are proper and have one of the numbers. -/
def Fits (numbers : List Nat) (fields : List Field) : Prop :=
  ∀ f ∈ fields, f.Proper ∧ f.number ∈ numbers

section Fits

variable {numbers : List Nat}

@[simp] theorem fits_nil : Fits numbers [] :=
  fun _ h => nomatch h

@[simp] theorem fits_cons {f : Field} :
    Fits numbers (f :: fields) ↔ (f.Proper ∧ f.number ∈ numbers) ∧ Fits numbers fields :=
  List.forall_mem_cons

@[simp] theorem fits_append {a b : List Field} :
    Fits numbers (a ++ b) ↔ Fits numbers a ∧ Fits numbers b :=
  List.forall_mem_append

@[simp] theorem fits_map {g : α → Field} {l : List α} :
    Fits numbers (l.map g) ↔ ∀ a ∈ l, (g a).Proper ∧ (g a).number ∈ numbers :=
  List.forall_mem_map

@[simp] theorem fits_toList_map {g : α → Field} {o : Option α} :
    Fits numbers (o.map g).toList ↔ ∀ a ∈ o, (g a).Proper ∧ (g a).number ∈ numbers := by
  rw [Option.toList_map, fits_map]
  simp

@[simp] theorem fits_ite {b : Bool} :
    Fits numbers (if b then fields else []) ↔ (b = true → Fits numbers fields) := by
  cases b <;> simp

end Fits

/-! ## What stands under a number -/

@[simp] theorem entries_nil : entries n [] = [] :=
  rfl

@[simp] theorem entries_cons (f : Field) :
    entries n (f :: fields) = if f.number = n then f :: entries n fields else entries n fields := by
  simp [entries, List.filter_cons]

@[simp] theorem entries_append (a b : List Field) :
    entries n (a ++ b) = entries n a ++ entries n b :=
  List.filter_append ..

/-- Fields of one number are all found under it, or none is found. -/
theorem entries_map (k : Nat) {g : α → Field} (h : ∀ a, (g a).number = k) (l : List α) :
    entries n (l.map g) = if k = n then l.map g else [] := by
  induction l with
  | nil => simp
  | cons a l ih =>
    rw [List.map_cons, entries_cons, h a, ih]
    split <;> rfl

@[simp] theorem entries_map_text (k : Nat) (l : List String) :
    entries n (l.map (text k)) = if k = n then l.map (text k) else [] :=
  entries_map k (fun _ => rfl) l

@[simp] theorem entries_map_natural (k : Nat) (g : α → Nat) (l : List α) :
    entries n (l.map fun a => natural k (g a)) =
      if k = n then l.map fun a => natural k (g a) else [] :=
  entries_map k (fun _ => rfl) l

@[simp] theorem entries_map_index (k : Nat) (l : List Nat) :
    entries n (l.map (index k)) = if k = n then l.map (index k) else [] :=
  entries_map k (fun _ => rfl) l

@[simp] theorem entries_map_flag (k : Nat) (l : List Bool) :
    entries n (l.map (flag k)) = if k = n then l.map (flag k) else [] :=
  entries_map k (fun _ => rfl) l

@[simp] theorem entries_map_message (k : Nat) (g : α → List Field) (l : List α) :
    entries n (l.map fun a => message k (g a)) =
      if k = n then l.map fun a => message k (g a) else [] :=
  entries_map k (fun _ => rfl) l

@[simp] theorem entries_ite {b : Bool} :
    entries n (if b then fields else []) = if b then entries n fields else [] := by
  cases b <;> rfl

theorem many?_eq {read : Value → Option α} {write : β → Field} {k : β → α} {l : List β}
    (hentries : entries n fields = l.map write)
    (hread : ∀ b ∈ l, read (write b).value = some (k b)) : many? read n fields = some (l.map k) := by
  rw [many?, hentries]
  clear hentries
  induction l with
  | nil => rfl
  | cons b l ih =>
    rw [List.map_cons, List.mapM_cons, hread b List.mem_cons_self,
      ih fun b' hb' => hread b' (List.mem_cons_of_mem _ hb')]
    rfl

theorem one?_eq {read : Value → Option α} {write : β → Field} {k : β → α} {o : Option β}
    (hentries : entries n fields = o.toList.map write)
    (hread : ∀ b ∈ o, read (write b).value = some (k b)) : one? read n fields = some (o.map k) := by
  rw [one?, hentries]
  cases o with
  | none => rfl
  | some b =>
    change (read (write b).value).map some = _
    rw [hread b rfl]
    rfl

theorem many?_text {l : List String} (h : entries n fields = l.map (text n)) :
    many? asText? n fields = some l := by
  rw [many?_eq h fun s _ => asText?_text s, List.map_id']

theorem one?_text {o : Option String} (h : entries n fields = o.toList.map (text n)) :
    one? asText? n fields = some o := by
  rw [one?_eq h fun s _ => asText?_text s, Option.map_id']

theorem one?_int32 {o : Option Int32} (h : entries n fields = o.toList.map (int32 n)) :
    one? asInt32? n fields = some o := by
  rw [one?_eq h fun i _ => asInt32?_int32 i, Option.map_id']

theorem one?_natural {o : Option β} {g : β → Nat}
    (h : entries n fields = o.toList.map fun b => natural n (g b)) :
    one? asInt32? n fields = some (o.map fun b => Int32.ofNat (g b)) :=
  one?_eq h fun b _ => asInt32?_natural (g b)

theorem one?_index {o : Option Nat} (h : entries n fields = o.toList.map (index n)) :
    one? asInt32? n fields = some (o.map Int32.ofNat) :=
  one?_eq h fun place _ => asInt32?_int32 (Int32.ofNat place)

theorem many?_index {l : List Nat} (h : entries n fields = l.map (index n)) :
    many? asInt32? n fields = some (l.map Int32.ofNat) :=
  many?_eq h fun place _ => asInt32?_int32 (Int32.ofNat place)

theorem one?_flag {o : Option Bool} (h : entries n fields = o.toList.map (flag n)) :
    one? asFlag? n fields = some o := by
  rw [one?_eq h fun b _ => asFlag?_flag b, Option.map_id']

/-- A message under a number is shorter than the whole. -/
theorem length_lt_of_entries {g : β → List Field} {l : List β}
    (hentries : entries n fields = l.map fun b => message n (g b)) {b : β} (hb : b ∈ l) :
    (encode (g b)).length < (encode fields).length := by
  have hmem : message n (g b) ∈ entries n fields := by
    rw [hentries]
    exact List.mem_map_of_mem hb
  exact length_lt_encode ((List.mem_filter.1 hmem).1) rfl

/-- Messages under a number are read if each is. -/
theorem many?_message {read : List UInt8 → Option α} {g : β → List Field} {k : β → α}
    {l : List β} (hentries : entries n fields = l.map fun b => message n (g b))
    (hread : ∀ b ∈ l, (encode (g b)).length < (encode fields).length →
      read (encode (g b)) = some (k b)) :
    many? (asMessage? read) n fields = some (l.map k) := by
  refine many?_eq hentries fun b hb => hread b hb ?_
  exact length_lt_of_entries hentries hb

theorem one?_message {read : List UInt8 → Option α} {g : β → List Field} {k : β → α}
    {o : Option β} (hentries : entries n fields = o.toList.map fun b => message n (g b))
    (hread : ∀ b ∈ o, (encode (g b)).length < (encode fields).length →
      read (encode (g b)) = some (k b)) :
    one? (asMessage? read) n fields = some (o.map k) := by
  refine one?_eq hentries fun b hb => hread b hb ?_
  exact length_lt_of_entries hentries (Option.mem_toList.2 hb)

/-! ## Whole messages -/

theorem ofBytes?_encode {read : List Field → Option α}
    (hfits : Fits numbers fields) (hlength : width.Holds (encode fields).length) :
    ofBytes? width numbers read (encode fields) = read fields := by
  have hknown : (fields.all fun f => numbers.contains f.number) = true :=
    List.all_eq_true.2 fun f hf => List.contains_iff_mem.2 (hfits f hf).2
  rw [ofBytes?, decode?_encode (fun f hf => (hfits f hf).1) hlength]
  exact if_pos hknown

end Wire

/-! ## Descriptors -/

section Descriptors

variable {width : Width}

/-- A range is read back. -/
theorem NumberSpan.ofBytes?_wire (r : NumberSpan) (h : width.Holds (encode r.wire).length) :
    Record.Range.ofBytes? width (encode r.wire) = some r.record := by
  have hfits : Fits [1, 2] r.wire := by simp [wire, IsNumber]
  have hfirst : one? asInt32? 1 r.wire = some (some r.first) :=
    one?_int32 (o := some r.first) (by simp [wire])
  have hlast : one? asInt32? 2 r.wire = some (some r.last) :=
    one?_int32 (o := some r.last) (by simp [wire])
  rw [Record.Range.ofBytes?, ofBytes?_encode hfits h]
  simp only [hfirst, hlast]
  rfl

/-- The options of a field are read back. -/
theorem FieldOptions.ofBytes?_wire (o : FieldOptions) (h : width.Holds (encode o.wire).length) :
    Record.fieldOptionsOfBytes? width (encode o.wire) = some o := by
  have hfits : Fits [2, 3] o.wire := by simp [wire, IsNumber]
  have hpacked : one? asFlag? 2 o.wire = some o.packed :=
    one?_flag (by simp [wire, Option.toList_map])
  have hdeprecated : one? asFlag? 3 o.wire = some o.deprecated :=
    one?_flag (by simp [wire, Option.toList_map])
  rw [Record.fieldOptionsOfBytes?, ofBytes?_encode hfits h]
  simp only [hpacked, hdeprecated]
  rfl

theorem Cardinality.code_lt (c : Cardinality) : c.code < 2147483648 := by
  cases c <;> decide

theorem TypeCode.code_lt (t : TypeCode) : t.code < 2147483648 := by
  cases t with
  | scalar s => cases s <;> decide
  | message => decide

/-- A field is read back. -/
theorem FieldDescriptor.ofBytes?_wire (f : FieldDescriptor)
    (h : width.Holds (encode f.wire).length) :
    Record.Field.ofBytes? width (encode f.wire) = some f.record := by
  have hfits : Fits [1, 2, 3, 4, 5, 6, 7, 8, 9, 10, 17] f.wire := by
    have hword : 2147483648 < UInt64.size := by decide
    simp [wire, IsNumber, Nat.lt_trans f.label.code_lt hword,
      fun t : TypeCode => Nat.lt_trans t.code_lt hword]
  have hname : one? asText? 1 f.wire = some (some f.name) :=
    one?_text (o := some f.name) (by simp [wire, Option.toList_map])
  have hextendee : one? asText? 2 f.wire = some f.extendee :=
    one?_text (by simp [wire, Option.toList_map])
  have hnumber : one? asInt32? 3 f.wire = some (some f.number) :=
    one?_int32 (o := some f.number) (by simp [wire, Option.toList_map])
  have hlabel : one? asInt32? 4 f.wire = some (some (Int32.ofNat f.label.code)) :=
    one?_natural (o := some f.label) (by simp [wire, Option.toList_map])
  have htype : one? asInt32? 5 f.wire = some (f.type.map fun t => Int32.ofNat t.code) :=
    one?_natural (by simp [wire, Option.toList_map])
  have htypeName : one? asText? 6 f.wire = some f.typeName :=
    one?_text (by simp [wire, Option.toList_map])
  have hdefault : one? asText? 7 f.wire = some f.defaultValue :=
    one?_text (by simp [wire, Option.toList_map])
  have hoptions : one? (asMessage? (Record.fieldOptionsOfBytes? width)) 8 f.wire =
      some (f.options.map id) :=
    one?_message (by simp [wire, Option.toList_map]) fun o _ hlt =>
      o.ofBytes?_wire (h.mono (Nat.le_of_lt hlt))
  have honeof : one? asInt32? 9 f.wire = some (f.oneofIndex.map Int32.ofNat) :=
    one?_index (by simp [wire, Option.toList_map])
  have hjson : one? asText? 10 f.wire = some f.jsonName :=
    one?_text (by simp [wire, Option.toList_map])
  have hpresence : one? asFlag? 17 f.wire = some (if f.tracksPresence then some true else none) :=
    one?_flag (by cases hb : f.tracksPresence <;> simp [wire, Option.toList_map, hb])
  rw [Record.Field.ofBytes?, ofBytes?_encode hfits h]
  simp only [hname, hextendee, hnumber, hlabel, htype, htypeName, hdefault, hoptions, honeof, hjson,
    hpresence, Option.map_id]
  rfl

/-- An entry of an enum is read back. -/
theorem EnumValueDescriptor.ofBytes?_wire (v : EnumValueDescriptor)
    (h : width.Holds (encode v.wire).length) :
    Record.EnumValue.ofBytes? width (encode v.wire) = some v.record := by
  have hfits : Fits [1, 2] v.wire := by simp [wire, IsNumber]
  have hname : one? asText? 1 v.wire = some (some v.name) :=
    one?_text (o := some v.name) (by simp [wire])
  have hnumber : one? asInt32? 2 v.wire = some (some v.number) :=
    one?_int32 (o := some v.number) (by simp [wire])
  rw [Record.EnumValue.ofBytes?, ofBytes?_encode hfits h]
  simp only [hname, hnumber]
  rfl

/-- An enum is read back. -/
theorem EnumDescriptor.ofBytes?_wire (e : EnumDescriptor)
    (h : width.Holds (encode e.wire).length) :
    Record.Enum.ofBytes? width (encode e.wire) = some e.record := by
  have hfits : Fits [1, 2, 4, 5] e.wire := by simp [wire, IsNumber]
  have hname : one? asText? 1 e.wire = some (some e.name) :=
    one?_text (o := some e.name) (by simp [wire])
  have hvalues : many? (asMessage? (Record.EnumValue.ofBytes? width)) 2 e.wire =
      some (e.values.map EnumValueDescriptor.record) :=
    many?_message (by simp [wire]) fun v _ hlt => v.ofBytes?_wire (h.mono (Nat.le_of_lt hlt))
  have hranges : many? (asMessage? (Record.Range.ofBytes? width)) 4 e.wire =
      some (e.reservedRanges.map NumberSpan.record) :=
    many?_message (by simp [wire]) fun r _ hlt => r.ofBytes?_wire (h.mono (Nat.le_of_lt hlt))
  have hnames : many? asText? 5 e.wire = some e.reservedNames :=
    many?_text (by simp [wire])
  rw [Record.Enum.ofBytes?, ofBytes?_encode hfits h]
  simp only [hname, hvalues, hranges, hnames]
  rfl

/-! ## Messages inside messages -/

/-- The options of an entry of a map are read back. -/
theorem ofBytes?_entryOptions (h : width.Holds (encode [flag 7 true]).length) :
    Record.MessageOptions.ofBytes? width (encode [flag 7 true]) = some ⟨some true⟩ := by
  have hfits : Fits [7] [flag 7 true] := by simp [IsNumber]
  have hentry : one? asFlag? 7 [flag 7 true] = some (some true) :=
    one?_flag (o := some true) (by simp)
  rw [Record.MessageOptions.ofBytes?, ofBytes?_encode hfits h]
  simp only [hentry]
  rfl

/-- A group of alternatives is read back. -/
theorem ofBytes?_oneof (name : String) (h : width.Holds (encode [text 1 name]).length) :
    Record.Oneof.ofBytes? width (encode [text 1 name]) = some ⟨some name⟩ := by
  have hfits : Fits [1] [text 1 name] := by simp [IsNumber]
  have hname : one? asText? 1 [text 1 name] = some (some name) :=
    one?_text (o := some name) (by simp)
  rw [Record.Oneof.ofBytes?, ofBytes?_encode hfits h]
  simp only [hname]
  rfl

theorem nestedRecords_eq (ms : List MessageDescriptor) :
    nestedRecords ms = ms.map MessageDescriptor.record := by
  induction ms with
  | nil => rw [nestedRecords, List.map_nil]
  | cons m ms ih => rw [nestedRecords, List.map_cons, ih]

theorem MessageDescriptor.record_eq (m : MessageDescriptor) :
    m.record =
      { name := some m.name
        fields := m.fields.map FieldDescriptor.record
        nested := m.nested.map MessageDescriptor.record
        enums := m.enums.map EnumDescriptor.record
        extensionRanges := m.extensionRanges.map NumberSpan.record
        extensions := m.extensions.map FieldDescriptor.record
        options := if m.isMapEntry then some ⟨some true⟩ else none
        oneofs := m.oneofs.map fun name => ⟨some name⟩
        reservedRanges := m.reservedRanges.map NumberSpan.record
        reservedNames := m.reservedNames } := by
  rw [← nestedRecords_eq]
  cases m
  rw [record]

/-- A message is read back if the messages right inside it are. -/
theorem MessageDescriptor.ofBytes?_step (m : MessageDescriptor)
    (h : width.Holds (encode m.wire).length)
    (hnested : ∀ m' ∈ m.nested, width.Holds (encode m'.wire).length →
      Record.Message.ofBytes? width (encode m'.wire) = some m'.record) :
    Record.Message.ofBytes? width (encode m.wire) = some m.record := by
  have hfits : Fits [1, 2, 3, 4, 5, 6, 7, 8, 9, 10] m.wire := by simp [m.wire_eq, IsNumber]
  have hname : one? asText? 1 m.wire = some (some m.name) :=
    one?_text (o := some m.name) (by simp [m.wire_eq])
  have hfields : many? (asMessage? (Record.Field.ofBytes? width)) 2 m.wire =
      some (m.fields.map FieldDescriptor.record) :=
    many?_message (by simp [m.wire_eq]) fun f _ hlt => f.ofBytes?_wire (h.mono (Nat.le_of_lt hlt))
  have hinner : many? (asMessage? fun block =>
      if block.length < (encode m.wire).length then Record.Message.ofBytes? width block else none)
      3 m.wire = some (m.nested.map MessageDescriptor.record) := by
    refine many?_message (g := MessageDescriptor.wire) (by simp [m.wire_eq]) fun m' hm' hlt => ?_
    rw [if_pos hlt]
    exact hnested m' hm' (h.mono (Nat.le_of_lt hlt))
  have henums : many? (asMessage? (Record.Enum.ofBytes? width)) 4 m.wire =
      some (m.enums.map EnumDescriptor.record) :=
    many?_message (by simp [m.wire_eq]) fun e _ hlt => e.ofBytes?_wire (h.mono (Nat.le_of_lt hlt))
  have hextensionRanges : many? (asMessage? (Record.Range.ofBytes? width)) 5 m.wire =
      some (m.extensionRanges.map NumberSpan.record) :=
    many?_message (by simp [m.wire_eq]) fun r _ hlt => r.ofBytes?_wire (h.mono (Nat.le_of_lt hlt))
  have hextensions : many? (asMessage? (Record.Field.ofBytes? width)) 6 m.wire =
      some (m.extensions.map FieldDescriptor.record) :=
    many?_message (by simp [m.wire_eq]) fun f _ hlt => f.ofBytes?_wire (h.mono (Nat.le_of_lt hlt))
  have hoptions : one? (asMessage? (Record.MessageOptions.ofBytes? width)) 7 m.wire =
      some ((if m.isMapEntry then some () else none).map fun _ => ⟨some true⟩) :=
    one?_message (g := fun _ => [flag 7 true])
      (by cases hb : m.isMapEntry <;> simp [m.wire_eq, hb])
      fun _ _ hlt => ofBytes?_entryOptions (h.mono (Nat.le_of_lt hlt))
  have honeofs : many? (asMessage? (Record.Oneof.ofBytes? width)) 8 m.wire =
      some (m.oneofs.map fun name => ⟨some name⟩) :=
    many?_message (by simp [m.wire_eq]) fun name _ hlt =>
      ofBytes?_oneof name (h.mono (Nat.le_of_lt hlt))
  have hranges : many? (asMessage? (Record.Range.ofBytes? width)) 9 m.wire =
      some (m.reservedRanges.map NumberSpan.record) :=
    many?_message (by simp [m.wire_eq]) fun r _ hlt => r.ofBytes?_wire (h.mono (Nat.le_of_lt hlt))
  have hnames : many? asText? 10 m.wire = some m.reservedNames :=
    many?_text (by simp [m.wire_eq])
  rw [Record.Message.ofBytes?, Record.Message.ofBytesWith?, ofBytes?_encode hfits h]
  simp only [hname, hfields, hinner, henums, hextensionRanges, hextensions, hoptions, honeofs,
    hranges, hnames]
  rw [m.record_eq]
  cases m.isMapEntry <;> rfl

/-- A message is read back, at whatever depth messages stand inside it. -/
theorem MessageDescriptor.ofBytes?_wire (m : MessageDescriptor)
    (h : width.Holds (encode m.wire).length) :
    Record.Message.ofBytes? width (encode m.wire) = some m.record := by
  induction m using MessageDescriptor.induction with
  | step m ih => exact m.ofBytes?_step h ih

/-! ## Files -/

/-- A method is read back. -/
theorem MethodDescriptor.ofBytes?_wire (m : MethodDescriptor)
    (h : width.Holds (encode m.wire).length) :
    Record.Method.ofBytes? width (encode m.wire) = some m.record := by
  have hfits : Fits [1, 2, 3, 5, 6] m.wire := by simp [wire, IsNumber]
  have hname : one? asText? 1 m.wire = some (some m.name) :=
    one?_text (o := some m.name) (by simp [wire])
  have hinput : one? asText? 2 m.wire = some (some m.inputType) :=
    one?_text (o := some m.inputType) (by simp [wire])
  have houtput : one? asText? 3 m.wire = some (some m.outputType) :=
    one?_text (o := some m.outputType) (by simp [wire])
  have hclient : one? asFlag? 5 m.wire = some (some m.clientStreaming) :=
    one?_flag (o := some m.clientStreaming) (by simp [wire])
  have hserver : one? asFlag? 6 m.wire = some (some m.serverStreaming) :=
    one?_flag (o := some m.serverStreaming) (by simp [wire])
  rw [Record.Method.ofBytes?, ofBytes?_encode hfits h]
  simp only [hname, hinput, houtput, hclient, hserver]
  rfl

/-- A service is read back. -/
theorem ServiceDescriptor.ofBytes?_wire (s : ServiceDescriptor)
    (h : width.Holds (encode s.wire).length) :
    Record.Service.ofBytes? width (encode s.wire) = some s.record := by
  have hfits : Fits [1, 2] s.wire := by simp [wire, IsNumber]
  have hname : one? asText? 1 s.wire = some (some s.name) :=
    one?_text (o := some s.name) (by simp [wire])
  have hmethods : many? (asMessage? (Record.Method.ofBytes? width)) 2 s.wire =
      some (s.methods.map MethodDescriptor.record) :=
    many?_message (by simp [wire]) fun m _ hlt => m.ofBytes?_wire (h.mono (Nat.le_of_lt hlt))
  rw [Record.Service.ofBytes?, ofBytes?_encode hfits h]
  simp only [hname, hmethods]
  rfl

/-- A file is read back. -/
theorem FileDescriptor.ofBytes?_wire (f : FileDescriptor)
    (h : width.Holds (encode f.wire).length) :
    Record.File.ofBytes? width (encode f.wire) = some f.record := by
  have hfits : Fits [1, 2, 3, 4, 5, 6, 7, 10, 11, 12] f.wire := by simp [wire, IsNumber]
  have hname : one? asText? 1 f.wire = some (some f.name) :=
    one?_text (o := some f.name) (by simp [wire, Option.toList_map])
  have hpackage : one? asText? 2 f.wire = some f.package :=
    one?_text (by simp [wire, Option.toList_map])
  have hdependencies : many? asText? 3 f.wire = some f.dependencies :=
    many?_text (by simp [wire, Option.toList_map])
  have hmessages : many? (asMessage? (Record.Message.ofBytes? width)) 4 f.wire =
      some (f.messages.map MessageDescriptor.record) :=
    many?_message (by simp [wire, Option.toList_map]) fun m _ hlt =>
      m.ofBytes?_wire (h.mono (Nat.le_of_lt hlt))
  have henums : many? (asMessage? (Record.Enum.ofBytes? width)) 5 f.wire =
      some (f.enums.map EnumDescriptor.record) :=
    many?_message (by simp [wire, Option.toList_map]) fun e _ hlt =>
      e.ofBytes?_wire (h.mono (Nat.le_of_lt hlt))
  have hservices : many? (asMessage? (Record.Service.ofBytes? width)) 6 f.wire =
      some (f.services.map ServiceDescriptor.record) :=
    many?_message (by simp [wire, Option.toList_map]) fun s _ hlt =>
      s.ofBytes?_wire (h.mono (Nat.le_of_lt hlt))
  have hextensions : many? (asMessage? (Record.Field.ofBytes? width)) 7 f.wire =
      some (f.extensions.map FieldDescriptor.record) :=
    many?_message (by simp [wire, Option.toList_map]) fun e _ hlt =>
      e.ofBytes?_wire (h.mono (Nat.le_of_lt hlt))
  have hpublic : many? asInt32? 10 f.wire = some (f.publicDependencies.map Int32.ofNat) :=
    many?_index (by simp [wire, Option.toList_map])
  have hweak : many? asInt32? 11 f.wire = some (f.weakDependencies.map Int32.ofNat) :=
    many?_index (by simp [wire, Option.toList_map])
  have hedition : one? asText? 12 f.wire = some f.edition :=
    one?_text (by simp [wire, Option.toList_map])
  rw [Record.File.ofBytes?, ofBytes?_encode hfits h]
  simp only [hname, hpackage, hdependencies, hmessages, henums, hservices, hextensions, hpublic,
    hweak, hedition]
  rfl

/-- The set that holds one file is read back. -/
theorem FileDescriptor.ofBytes?_set (f : FileDescriptor)
    (h : width.Holds (encode [message 1 f.wire]).length) :
    Record.FileSet.ofBytes? width (encode [message 1 f.wire]) = some ⟨[f.record]⟩ := by
  have hfits : Fits [1] [message 1 f.wire] := by simp [IsNumber]
  have hfiles : many? (asMessage? (Record.File.ofBytes? width)) 1 [message 1 f.wire] =
      some ([f].map FileDescriptor.record) :=
    many?_message (by simp) fun f _ hlt => f.ofBytes?_wire (h.mono (Nat.le_of_lt hlt))
  rw [Record.FileSet.ofBytes?, ofBytes?_encode hfits h]
  simp only [hfiles]
  rfl

end Descriptors

end ProtoDecl.Descriptor
