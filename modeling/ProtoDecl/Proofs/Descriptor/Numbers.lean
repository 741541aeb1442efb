import ProtoDecl.Proofs.Descriptor.Entries
import ProtoDecl.Proofs.Descriptor.Ranges
import ProtoDecl.Proofs.Spans.Parse
import ProtoDecl.Proofs.WellFormed.Parse

/-!
# Exported numbers

A literal is exported as the 32-bit word nearest to the integer that it denotes (`Exported`).
Numbers of fields and of enum values are checked when they are read, but the bounds of reserved and
extension lists are not.  So all numbers of a source are exported as they should be exactly if these
bounds denote integers that fit in 64 bits (`numbers_exported_iff`); any other bound counts as zero.

* `Number.Denotes` says which integer a text denotes, however large it is, and `NumberLit.Fits` that
  the integer can be read (`fits_iff`).
* `EnumNumbers`, `MessageNumbers` and `FileNumbers` go through a declaration and its descriptor side
  by side, and ask of each literal that it is exported.
-/

namespace ProtoDecl

namespace Number

/-! ## Integers -/

/-- Whether a text is made of one or more decimal digits. -/
def IsDigits (text : List Char) : Prop :=
  text ≠ [] ∧ ∀ c ∈ text, c.isDigit = true

/-- The integer that a text denotes: decimal digits, which may have a sign before them. -/
inductive Denotes : List Char → Int → Prop
  | unsigned {digits : List Char} (h : IsDigits digits) :
      Denotes digits (Nat.ofDigitChars 10 digits 0)
  | plus {digits : List Char} (h : IsDigits digits) :
      Denotes ('+' :: digits) (Nat.ofDigitChars 10 digits 0)
  | minus {digits : List Char} (h : IsDigits digits) :
      Denotes ('-' :: digits) (-Nat.ofDigitChars 10 digits 0)

theorem ofDigits_eq (digits : List Char) : ofDigits digits = Nat.ofDigitChars 10 digits 0 := by
  simp only [ofDigits, Nat.ofDigitChars, Nat.mul_comm]

theorem natural?_eq_some_iff {text : List Char} {n : Nat} :
    natural? text = some n ↔ IsDigits text ∧ Nat.ofDigitChars 10 text 0 = n := by
  have hdigits : (text.isEmpty || !text.all Char.isDigit) = true ↔ ¬IsDigits text := by
    simp [IsDigits, or_iff_not_imp_left]
  rw [natural?, ofDigits_eq]
  by_cases h : IsDigits text
  · rw [if_neg (mt hdigits.1 (not_not_intro h)), Option.some_inj]
    exact (and_iff_right h).symm
  · rw [if_pos (hdigits.2 h)]
    exact iff_of_false nofun fun hand => h hand.1

/-- A sign before digits is told from them. -/
theorem splitSign_of_isDigits {digits : List Char} (h : IsDigits digits) :
    splitSign digits = (false, digits) := by
  unfold splitSign
  split
  · exact absurd (h.2 '-' List.mem_cons_self) (by decide)
  · exact absurd (h.2 '+' List.mem_cons_self) (by decide)
  · rfl

/-- A text denotes an integer if there are digits behind its sign. -/
theorem denotes_iff {text : List Char} {v : Int} :
    Denotes text v ↔ ∃ n : Nat, natural? (splitSign text).2 = some n ∧
      v = if (splitSign text).1 then -(n : Int) else n := by
  simp only [natural?_eq_some_iff]
  constructor
  · intro h
    cases h with
    | unsigned h =>
      rw [splitSign_of_isDigits h]
      exact ⟨_, ⟨h, rfl⟩, rfl⟩
    | plus h => exact ⟨_, ⟨h, rfl⟩, rfl⟩
    | minus h => exact ⟨_, ⟨h, rfl⟩, rfl⟩
  · rintro ⟨n, ⟨hdigits, rfl⟩, rfl⟩
    revert hdigits
    fun_cases splitSign text with
    | case1 digits => exact .minus
    | case2 digits => exact .plus
    | case3 => exact .unsigned

/-- What is read is the integer that the text denotes, if it fits in 64 bits. -/
theorem integer?_eq_some_iff {text : List Char} {v : Int} :
    integer? text = some v ↔
      Denotes text v ∧ -0x8000000000000000 ≤ v ∧ v < 0x8000000000000000 := by
  rw [denotes_iff]
  unfold integer?
  dsimp only
  cases natural? (splitSign text).2 with
  | none => simp
  | some n =>
    simp only [Option.some_inj, exists_eq_left']
    generalize (if (splitSign text).1 then -(n : Int) else n) = value
    rw [Option.ite_none_right_eq_some, Option.some_inj]
    constructor
    · rintro ⟨hrange, rfl⟩
      exact ⟨rfl, hrange⟩
    · rintro ⟨rfl, hrange⟩
      exact ⟨hrange, rfl⟩

end Number

namespace Schema

/-- Whether a literal denotes an integer that fits in 64 bits. -/
def NumberLit.Fits (n : NumberLit) : Prop :=
  ∃ v, Number.Denotes n.raw.toList v ∧ -0x8000000000000000 ≤ v ∧ v < 0x8000000000000000

theorem NumberLit.fits_iff (n : NumberLit) : n.Fits ↔ n.integer?.isSome := by
  simp only [Fits, integer?, Option.isSome_iff_exists, Number.integer?_eq_some_iff]

/-- Where an item of a reserved list begins and ends, if it is about numbers. -/
def ReservedItem.bounds? : ReservedItem → Option (NumberLit × RangeEnd)
  | .number n => some (n, .number n)
  | .name _ => none
  | .range r => some (r.first, r.last)

/-- Where an item of an extension list begins and ends. -/
def ExtensionRange.bounds : ExtensionRange → NumberLit × RangeEnd
  | .number n => (n, .number n)
  | .range r => (r.first, r.last)

end Schema

namespace Descriptor

open Schema
open TypeScript (messageAt? descriptorAt? descriptorAt?_map)

/-! ## Literals and words -/

/-- Whether a literal denotes an integer, and the word is the one nearest to it. -/
def Exported (n : NumberLit) (w : Int32) : Prop :=
  ∃ v, Number.Denotes n.raw.toList v ∧ w.toInt = clamp v

/-- Whether a word is the one behind the end of a range in a message. -/
def ExportedBehind : RangeEnd → Int32 → Prop
  | .number n, w => ∃ last, Exported n last ∧ w = successor last
  | .max _, w => w = fieldNumberLimit

/-- Whether a word is the last one of a range in an enum. -/
def ExportedLast : RangeEnd → Int32 → Prop
  | .number n, w => Exported n w
  | .max _, w => w.toInt = 0x7FFFFFFF

/-- Whether a range is the one between two bounds, without its last number. -/
def ExportedOpen (b : NumberLit × RangeEnd) (s : NumberSpan) : Prop :=
  Exported b.1 s.first ∧ ExportedBehind b.2 s.last

/-- Whether a range is the one between two bounds, with its last number. -/
def ExportedClosed (b : NumberLit × RangeEnd) (s : NumberSpan) : Prop :=
  Exported b.1 s.first ∧ ExportedLast b.2 s.last

section
variable {n : NumberLit}

/-- A literal that does not fit counts as zero, which is no word near to an integer that does not
fit. -/
theorem ofNumber_of_not_fits (h : ¬n.Fits) :
    ofNumber n = 0 ∧ ∀ v, Number.Denotes n.raw.toList v → clamp v ≠ 0 := by
  have hnone : n.integer? = none := by simpa [NumberLit.fits_iff] using h
  refine ⟨by rw [ofNumber, hnone], fun v hv hzero => h ⟨v, hv, ?_⟩⟩
  unfold clamp at hzero
  omega

theorem exported_ofNumber_iff : Exported n (ofNumber n) ↔ n.Fits := by
  constructor
  · rintro ⟨v, hv, hword⟩
    by_contra hfits
    obtain ⟨hzero, hne⟩ := ofNumber_of_not_fits hfits
    rw [hzero] at hword
    exact hne v hv hword.symm
  · rintro ⟨v, hv, hrange⟩
    have hinteger : n.integer? = some v := Number.integer?_eq_some_iff.2 ⟨hv, hrange⟩
    exact ⟨v, hv, by rw [ofNumber, hinteger, toInt_word]⟩

theorem exportedBehind_successor_iff :
    ExportedBehind (.number n) (successor (ofNumber n)) ↔ n.Fits := by
  constructor
  · rintro ⟨last, ⟨v, hv, hlast⟩, hword⟩
    by_contra hfits
    obtain ⟨hzero, hne⟩ := ofNumber_of_not_fits hfits
    have hclamp := congrArg Int32.toInt hword
    rw [hzero, successor, successor, toInt_word, toInt_word, hlast, Int32.toInt_zero] at hclamp
    -- The number behind zero is one, and no other word has it behind it.
    have hne := hne v hv
    unfold clamp at hclamp hne
    omega
  · exact fun hfits => ⟨_, exported_ofNumber_iff.2 hfits, rfl⟩

end

/-! ## Lists of bounds -/

/-- The last number of a range in an enum. -/
def lastOf : RangeEnd → Int32
  | .number n => ofNumber n
  | .max _ => word 0x7FFFFFFF

theorem exportedOpen_iff {b : NumberLit × RangeEnd} :
    ExportedOpen b ⟨ofNumber b.1, behindEnd b.2⟩ ↔ ∀ n ∈ b.1 :: b.2.literals, n.Fits := by
  obtain ⟨first, last⟩ := b
  cases last with
  | number n =>
    simp [ExportedOpen, exported_ofNumber_iff, behindEnd, exportedBehind_successor_iff,
      RangeEnd.literals]
  | max _ =>
    simp [ExportedOpen, exported_ofNumber_iff, behindEnd, ExportedBehind, RangeEnd.literals]

theorem exportedClosed_iff {b : NumberLit × RangeEnd} :
    ExportedClosed b ⟨ofNumber b.1, lastOf b.2⟩ ↔ ∀ n ∈ b.1 :: b.2.literals, n.Fits := by
  obtain ⟨first, last⟩ := b
  cases last with
  | number n =>
    simp [ExportedClosed, exported_ofNumber_iff, lastOf, ExportedLast, RangeEnd.literals]
  | max _ =>
    have hgreatest : clamp 0x7FFFFFFF = 0x7FFFFFFF := rfl
    simp [ExportedClosed, exported_ofNumber_iff, lastOf, ExportedLast, RangeEnd.literals, hgreatest]

theorem forall₂_map_iff {α β : Type} {R : α → β → Prop} {g : α → β} {xs : List α} :
    List.Forall₂ R xs (xs.map g) ↔ ∀ x ∈ xs, R x (g x) := by
  rw [List.forall₂_map_right_iff, List.forall₂_same]

/-- The bounds of a reserved list are made of its literals. -/
theorem forall_bounds?_iff {P : NumberLit → Prop} {items : List ReservedItem} :
    (∀ b ∈ items.filterMap ReservedItem.bounds?, ∀ n ∈ b.1 :: b.2.literals, P n) ↔
      ∀ n ∈ items.flatMap ReservedItem.literals, P n := by
  induction items with
  | nil => simp
  | cons item items ih =>
    rw [List.flatMap_cons, List.forall_mem_append, ← ih]
    cases item with
    | number n => simp [ReservedItem.bounds?, ReservedItem.literals, RangeEnd.literals]
    | name t => simp [ReservedItem.bounds?, ReservedItem.literals]
    | range r => simp [ReservedItem.bounds?, ReservedItem.literals, NumberRange.literals]

theorem forall_bounds_iff {P : NumberLit → Prop} {items : List ExtensionRange} :
    (∀ b ∈ items.map ExtensionRange.bounds, ∀ n ∈ b.1 :: b.2.literals, P n) ↔
      ∀ n ∈ items.flatMap ExtensionRange.literals, P n := by
  induction items with
  | nil => simp
  | cons item items ih =>
    rw [List.flatMap_cons, List.forall_mem_append, ← ih]
    cases item with
    | number n => simp [ExtensionRange.bounds, ExtensionRange.literals, RangeEnd.literals]
    | range r => simp [ExtensionRange.bounds, ExtensionRange.literals, NumberRange.literals]

theorem reservedRanges_eq (lists : List Reserved) :
    reservedRanges lists = ((reservedItems lists).filterMap ReservedItem.bounds?).map
      fun b => ⟨ofNumber b.1, behindEnd b.2⟩ := by
  rw [reservedRanges, List.map_filterMap]
  congr 1
  funext item
  cases item <;> rfl

theorem enumReservedRanges_eq (lists : List Reserved) :
    enumReservedRanges lists = ((reservedItems lists).filterMap ReservedItem.bounds?).map
      fun b => ⟨ofNumber b.1, lastOf b.2⟩ := by
  rw [enumReservedRanges, List.map_filterMap]
  congr 1
  funext item
  cases item with
  | number n => rfl
  | name t => rfl
  | range r =>
    obtain ⟨first, last, span⟩ := r
    cases last <;> rfl

theorem extensionRanges_eq (e : Option Extensions) :
    extensionRanges e = ((e.toList.flatMap Extensions.ranges).map ExtensionRange.bounds).map
      fun b => ⟨ofNumber b.1, behindEnd b.2⟩ := by
  rw [extensionRanges, List.map_map]
  congr 1
  funext item
  cases item <;> rfl

/-! ## Declarations -/

/-- Whether the numbers of an enum are exported. -/
structure EnumNumbers (e : EnumDecl) (d : EnumDescriptor) : Prop where
  values : List.Forall₂ (fun v w => Exported v.number w.number) e.values d.values
  reserved : List.Forall₂ ExportedClosed (e.reservedItems.filterMap ReservedItem.bounds?)
    d.reservedRanges

/-- Whether the numbers of fields are exported. -/
def FieldNumbers : List Field → List FieldDescriptor → Prop :=
  List.Forall₂ fun f d => Exported f.number d.number

/-- Whether the numbers of a message are exported, those of the messages inside it aside. -/
structure MessageNumbers (m : Message) (d : MessageDescriptor) : Prop where
  fields : FieldNumbers (allFields m) d.fields
  enums : List.Forall₂ EnumNumbers m.enums d.enums
  extensions : FieldNumbers (m.extendBlocks.flatMap Extend.fields) d.extensions
  reserved : List.Forall₂ ExportedOpen (m.reservedItems.filterMap ReservedItem.bounds?)
    d.reservedRanges
  extensionRanges : List.Forall₂ ExportedOpen (m.extensionItems.map ExtensionRange.bounds)
    d.extensionRanges

/-- Whether the numbers of a file are exported, at any depth. -/
structure FileNumbers (f : File) (d : FileDescriptor) : Prop where
  messages : ∀ (i : Nat) (path : List Nat) (m : Message), messageAt? f.messages i path = some m →
    ∃ inner, descriptorAt? d.messages i path = some inner ∧ MessageNumbers m inner
  enums : List.Forall₂ EnumNumbers f.enums d.enums
  extensions : FieldNumbers (f.extendBlocks.flatMap Extend.fields) d.extensions

/-- Whether the literals fit that are checked when they are read. -/
structure Checked (fields : List Field) (enums : List EnumDecl) (blocks : List Extend) : Prop where
  fields : ∀ f ∈ fields, f.number.Fits
  values : ∀ e ∈ enums, ∀ v ∈ e.values, v.number.Fits
  extensions : ∀ f ∈ blocks.flatMap Extend.fields, f.number.Fits

theorem enumNumbers_ofEnum_iff {e : EnumDecl} (h : ∀ v ∈ e.values, v.number.Fits) :
    EnumNumbers e (ofEnum e) ↔ ∀ n ∈ e.rangeLiterals, n.Fits := by
  have hreserved : List.Forall₂ ExportedClosed (e.reservedItems.filterMap ReservedItem.bounds?)
      (ofEnum e).reservedRanges ↔ ∀ n ∈ e.rangeLiterals, n.Fits := by
    change List.Forall₂ _ ((reservedItems e.reserved).filterMap _)
      (enumReservedRanges e.reserved) ↔ _
    rw [enumReservedRanges_eq]
    simp only [forall₂_map_iff, exportedClosed_iff]
    exact forall_bounds?_iff
  have hvalues : List.Forall₂ (fun v w => Exported v.number w.number) e.values (ofEnum e).values :=
    forall₂_map_iff.2 fun v hv => exported_ofNumber_iff.2 (h v hv)
  exact ⟨fun hnumbers => hreserved.1 hnumbers.reserved, fun hfits => ⟨hvalues, hreserved.2 hfits⟩⟩

theorem fieldNumbers_ofExtend {blocks : List Extend}
    (h : ∀ f ∈ blocks.flatMap Extend.fields, f.number.Fits) :
    FieldNumbers (blocks.flatMap Extend.fields) (blocks.flatMap ofExtend) := by
  induction blocks with
  | nil => exact .nil
  | cons block blocks ih =>
    rw [List.flatMap_cons] at h ⊢
    obtain ⟨hblock, hblocks⟩ := List.forall_mem_append.1 h
    have hfields : FieldNumbers block.fields (ofExtend block) :=
      forall₂_map_iff.2 fun f hf => exported_ofNumber_iff.2 (hblock f hf)
    exact List.rel_append hfields (ih hblocks)

theorem fieldNumbers_ofMessage (version3 : Bool) {m : Message}
    (h : ∀ f ∈ allFields m, f.number.Fits) :
    FieldNumbers (allFields m) (ofMessage version3 m).fields := by
  have hexports := (List.forall₂_and_left _ _).2 ⟨h, exports_fields version3 m⟩
  refine hexports.imp fun f d hd => ?_
  obtain ⟨hfits, ⟨index, presence⟩⟩ := hd
  exact exported_ofNumber_iff.2 hfits

theorem forall₂_enumNumbers_iff {es : List EnumDecl} (h : ∀ e ∈ es, ∀ v ∈ e.values, v.number.Fits) :
    List.Forall₂ EnumNumbers es (es.map ofEnum) ↔ ∀ e ∈ es, ∀ n ∈ e.rangeLiterals, n.Fits := by
  rw [forall₂_map_iff]
  exact forall₂_congr fun e he => enumNumbers_ofEnum_iff (h e he)

/-- Of the numbers of a message, only those in its lists of numbers may be exported wrongly. -/
theorem messageNumbers_ofMessage_iff (version3 : Bool) {m : Message}
    (h : Checked (allFields m) m.enums m.extendBlocks) :
    MessageNumbers m (ofMessage version3 m) ↔
      (∀ n ∈ m.rangeLiterals, n.Fits) ∧ ∀ e ∈ m.enums, ∀ n ∈ e.rangeLiterals, n.Fits := by
  have hreserved : List.Forall₂ ExportedOpen (m.reservedItems.filterMap ReservedItem.bounds?)
      (reservedRanges m.reserved) ↔
        ∀ n ∈ m.reservedItems.flatMap ReservedItem.literals, n.Fits := by
    change List.Forall₂ _ ((reservedItems m.reserved).filterMap _) _ ↔ _
    rw [reservedRanges_eq]
    simp only [forall₂_map_iff, exportedOpen_iff]
    exact forall_bounds?_iff
  have hextensions : List.Forall₂ ExportedOpen (m.extensionItems.map ExtensionRange.bounds)
      (extensionRanges m.extensions) ↔
        ∀ n ∈ m.extensionItems.flatMap ExtensionRange.literals, n.Fits := by
    rw [extensionRanges_eq, Message.extensionItems, forall₂_map_iff]
    simp only [exportedOpen_iff]
    exact forall_bounds_iff
  have henums := forall₂_enumNumbers_iff h.values
  rw [Message.rangeLiterals, List.forall_mem_append, ← hreserved, ← hextensions, ← henums]
  constructor
  · intro hnumbers
    have hranges := hnumbers.reserved
    have hextensions := hnumbers.extensionRanges
    have henums := hnumbers.enums
    rw [ofMessage_eq] at hranges hextensions henums
    exact ⟨⟨hranges, hextensions⟩, henums⟩
  · rintro ⟨⟨hranges, hextensions⟩, henums⟩
    have hfields := fieldNumbers_ofMessage version3 h.fields
    have hadded := fieldNumbers_ofExtend h.extensions
    rw [ofMessage_eq] at hfields ⊢
    exact ⟨hfields, henums, hadded, hranges, hextensions⟩

end Descriptor

/-! ## Sources -/

namespace Schema

variable {errors : List SyntaxError}

/-- Whatever the source, its file and all the nodes under it are formed. -/
theorem shaped_parse (source : String) :
    Shaped (parse (tokenize source).tokens).errors
      (.file (parse (tokenize source).tokens).file) := by
  obtain ⟨s, d, hrun, hparsed⟩ := parse_yields (tokenize source).tokens
  have hworded : (Cursor.ofTokens (tokenize source).tokens).Worded :=
    Cursor.worded_ofTokens fun t ht => worded_of_mem_tokenize ht
  have hempty : Shaped d.errors (.file {}) := ⟨trivial, by simp [Node.parts]⟩
  have hfile := Parser.forms_fileStatements hempty hworded s d hrun (List.Subset.refl _)
  rw [hparsed]
  exact ⟨trivial, fun _ => hfile.child⟩

/-- The nodes of a part are formed with all nodes under them. -/
theorem Shaped.of_part {n : Node} {α : Type} {node : α → Node} {xs : List α} (h : Shaped errors n)
    (hpart : xs.map node ∈ n.parts) : ∀ x ∈ xs, Shaped errors (node x) :=
  fun x hx => h.child hpart (node x) (List.mem_map_of_mem hx)

theorem Shaped.fits_fields {fs : List Field} (h : ∀ f ∈ fs, Shaped errors (.field f)) :
    ∀ f ∈ fs, f.number.Fits :=
  fun f hf => f.number.fits_iff.2 (h f hf).formed.2

theorem Shaped.fits_values {es : List EnumDecl} (h : ∀ e ∈ es, Shaped errors (.enum e)) :
    ∀ e ∈ es, ∀ v ∈ e.values, v.number.Fits := by
  intro e he v hv
  have hvalues : ∀ v ∈ e.values, Shaped errors (.enumValue v) :=
    (h e he).of_part (by simp [Node.parts])
  exact v.number.fits_iff.2 (hvalues v hv).formed.2

theorem Shaped.fits_added {blocks : List Extend} (h : ∀ e ∈ blocks, Shaped errors (.extend e)) :
    ∀ f ∈ blocks.flatMap Extend.fields, f.number.Fits := by
  intro f hf
  obtain ⟨e, he, hf⟩ := List.mem_flatMap.1 hf
  have hfields : ∀ f ∈ e.fields, Shaped errors (.field f) :=
    (h e he).of_part (by simp [Node.parts])
  exact Shaped.fits_fields hfields f hf

end Schema

namespace Descriptor

open Schema
open TypeScript (messageAt? descriptorAt? descriptorAt?_map)

variable {errors : List SyntaxError}

/-- The literals that are checked fit in every message that was read. -/
theorem checked_of_shaped {m : Message} (h : Shaped errors (.message m)) :
    Checked (allFields m) m.enums m.extendBlocks := by
  have hfields : ∀ f ∈ m.fields, Shaped errors (.field f) := h.of_part (by simp [Node.parts])
  have honeofs : ∀ o ∈ m.oneofs, Shaped errors (.oneof o) := h.of_part (by simp [Node.parts])
  have hgrouped : ∀ f ∈ m.oneofs.flatMap Oneof.fields, Shaped errors (.field f) := by
    intro f hf
    obtain ⟨o, ho, hf⟩ := List.mem_flatMap.1 hf
    have hinner : ∀ f ∈ o.fields, Shaped errors (.field f) :=
      (honeofs o ho).of_part (by simp [Node.parts])
    exact hinner f hf
  exact ⟨Shaped.fits_fields (List.forall_mem_append.2 ⟨hfields, hgrouped⟩),
    Shaped.fits_values (h.of_part (by simp [Node.parts])),
    Shaped.fits_added (h.of_part (by simp [Node.parts]))⟩

theorem shaped_messageAt? {ms : List Message} {i : Nat} {path : List Nat} {m : Message}
    (h : ∀ m ∈ ms, Shaped errors (.message m)) (hm : messageAt? ms i path = some m) :
    Shaped errors (.message m) := by
  induction path generalizing ms i with
  | nil => exact h m (List.mem_of_getElem? hm)
  | cons j path ih =>
    obtain ⟨outer, houter, hrest⟩ := Option.bind_eq_some_iff.1 hm
    exact ih ((h outer (List.mem_of_getElem? houter)).of_part (by simp [Node.parts])) hrest

/-- The numbers of a source are exported just where the literals in its reserved and extension lists
denote integers that fit in 64 bits.

All other literals are checked when they are read. -/
theorem numbers_exported_iff (source name : String) :
    let f := (parse (tokenize source).tokens).file
    FileNumbers f (ofFile f name) ↔
      (∀ (i : Nat) (path : List Nat) (m : Message), messageAt? f.messages i path = some m →
        (∀ n ∈ m.rangeLiterals, n.Fits) ∧ ∀ e ∈ m.enums, ∀ n ∈ e.rangeLiterals, n.Fits) ∧
      ∀ e ∈ f.enums, ∀ n ∈ e.rangeLiterals, n.Fits := by
  intro f
  have hshaped := shaped_parse source
  have hmessages : ∀ m ∈ f.messages, Shaped _ (.message m) :=
    hshaped.of_part (by simp [Node.parts, f])
  have henums : ∀ e ∈ f.enums, Shaped _ (.enum e) := hshaped.of_part (by simp [Node.parts, f])
  have hblocks : ∀ e ∈ f.extendBlocks, Shaped _ (.extend e) :=
    hshaped.of_part (by simp [Node.parts, f])
  have hmessage {i : Nat} {path : List Nat} {m : Message}
      (hm : messageAt? f.messages i path = some m) :
      (∃ d, descriptorAt? (ofFile f name).messages i path = some d ∧ MessageNumbers m d) ↔
        (∀ n ∈ m.rangeLiterals, n.Fits) ∧ ∀ e ∈ m.enums, ∀ n ∈ e.rangeLiterals, n.Fits := by
    change (∃ d, descriptorAt? (ofMessages _ _) i path = some d ∧ _) ↔ _
    rw [ofMessages_eq, descriptorAt?_map, hm, Option.map_some]
    simp only [Option.some_inj, exists_eq_left']
    exact messageNumbers_ofMessage_iff _ (checked_of_shaped (shaped_messageAt? hmessages hm))
  have hvalues := forall₂_enumNumbers_iff (Shaped.fits_values henums)
  constructor
  · intro h
    exact ⟨fun i path m hm => (hmessage hm).1 (h.messages i path m hm), hvalues.1 h.enums⟩
  · rintro ⟨hlists, hreserved⟩
    have hadded := fieldNumbers_ofExtend (Shaped.fits_added hblocks)
    exact ⟨fun i path m hm => (hmessage hm).2 (hlists i path m hm), hvalues.2 hreserved, hadded⟩

/-- A bound that is too large to be read, and one that is a fraction, are exported as zero without
any error. -/
theorem reserved_bound_as_zero :
    let large := parse (tokenize "message M \x7b reserved 9223372036854775808; \x7d").tokens
    let fraction := parse (tokenize "message M \x7b reserved 1.5; \x7d").tokens
    Number.Denotes "9223372036854775808".toList 9223372036854775808 ∧
      clamp 9223372036854775808 = 2147483647 ∧ (¬∃ v, Number.Denotes "1.5".toList v) ∧
      (large.errors = [] ∧
        large.file.messages.map (fun m => m.rangeLiterals.map NumberLit.raw) =
          [["9223372036854775808"]] ∧
        (ofFile large.file "m.proto").messages.map (fun d => d.reservedRanges) = [[⟨0, 1⟩]]) ∧
      fraction.errors = [] ∧
        fraction.file.messages.map (fun m => m.rangeLiterals.map NumberLit.raw) = [["1.5"]] ∧
        (ofFile fraction.file "m.proto").messages.map (fun d => d.reservedRanges) = [[⟨0, 1⟩]] := by
  intro large fraction
  have hlarge : Number.Denotes "9223372036854775808".toList 9223372036854775808 :=
    .unsigned ⟨by decide, List.all_eq_true.1 (by decide)⟩
  have hfraction : ¬∃ v, Number.Denotes "1.5".toList v := by
    have hnone : Number.natural? (Number.splitSign "1.5".toList).2 = none := by decide
    rintro ⟨v, hv⟩
    obtain ⟨n, hn, -⟩ := Number.denotes_iff.1 hv
    rw [hnone] at hn
    cases hn
  exact ⟨hlarge, by decide, hfraction, by decide +kernel⟩

end Descriptor

end ProtoDecl
