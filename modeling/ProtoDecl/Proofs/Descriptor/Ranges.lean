import ProtoDecl.Proofs.Nesting

/-!
# Ranges of numbers

The reserved numbers of messages and enums, and the numbers that messages leave to extensions, are
exported as ranges of 32-bit words.  Literals are cut to words, and behind the greatest word there is
none; still a number between the least and the greatest word is in an exported range exactly if it is
declared (`ranges_cover`).

* `Covers` says which numbers are declared.  How far the word `max` reaches is a parameter, since
  numbers of fields have a limit and those of enums have none.
* `NumberSpan.HoldsOpen` and `NumberSpan.HoldsClosed` are the two readings of an exported range, without
  its last number in a message and with it in an enum.

Cutting moves a bound only past the least or the greatest word, so comparisons with a number between
them stay the same (`clamp_le_iff`, `le_clamp_iff`, `lt_clamp_add_one_iff`).
-/

namespace ProtoDecl

namespace Schema

/-! ## Declared numbers -/

/-- The literals at the end of a range. -/
def RangeEnd.literals : RangeEnd → List NumberLit
  | .number n => [n]
  | .max _ => []

/-- The literals of a range. -/
def NumberRange.literals (r : NumberRange) : List NumberLit :=
  r.first :: r.last.literals

/-- The literals of an item of a reserved list. -/
def ReservedItem.literals : ReservedItem → List NumberLit
  | .number n => [n]
  | .name _ => []
  | .range r => r.literals

/-- The literals of an item of an extension list. -/
def ExtensionRange.literals : ExtensionRange → List NumberLit
  | .number n => [n]
  | .range r => r.literals

/-- The items of all reserved lists of a message. -/
def Message.reservedItems (m : Message) : List ReservedItem :=
  m.reserved.flatMap Reserved.items

/-- The items of all reserved lists of an enum. -/
def EnumDecl.reservedItems (e : EnumDecl) : List ReservedItem :=
  e.reserved.flatMap Reserved.items

/-- The items of the extension list of a message. -/
def Message.extensionItems (m : Message) : List ExtensionRange :=
  m.extensions.toList.flatMap Extensions.ranges

/-- The literals in the reserved and extension lists of a message. -/
def Message.rangeLiterals (m : Message) : List NumberLit :=
  m.reservedItems.flatMap ReservedItem.literals ++ m.extensionItems.flatMap ExtensionRange.literals

/-- The literals in the reserved lists of an enum. -/
def EnumDecl.rangeLiterals (e : EnumDecl) : List NumberLit :=
  e.reservedItems.flatMap ReservedItem.literals

/-- Whether a range that ends here goes as far as `k`, where `max` reaches the numbers in `top`. -/
def RangeEnd.Reaches (top : Int → Prop) (k : Int) : RangeEnd → Prop
  | .number n => ∃ v ∈ n.integer?, k ≤ v
  | .max _ => top k

/-- Whether a range covers a number. -/
def NumberRange.Covers (top : Int → Prop) (k : Int) (r : NumberRange) : Prop :=
  (∃ v ∈ r.first.integer?, v ≤ k) ∧ r.last.Reaches top k

/-- Whether an item of a reserved list covers a number. -/
def ReservedItem.Covers (top : Int → Prop) (k : Int) : ReservedItem → Prop
  | .number n => n.integer? = some k
  | .name _ => False
  | .range r => r.Covers top k

/-- Whether an item of an extension list covers a number. -/
def ExtensionRange.Covers (top : Int → Prop) (k : Int) : ExtensionRange → Prop
  | .number n => n.integer? = some k
  | .range r => r.Covers top k

/-- The numbers that `max` reaches in a message: none is above the greatest number of a field. -/
def UpToGreatest (k : Int) : Prop :=
  k ≤ 536870911

/-- The name that an item of a reserved list is. -/
def ReservedItem.name? : ReservedItem → Option String
  | .name literal => some literal.value
  | .number _ => none
  | .range _ => none

/-- Whether all literals denote integers. -/
def Integral (ns : List NumberLit) : Prop :=
  ∀ n ∈ ns, n.integer?.isSome

section
variable {top : Int → Prop} [DecidablePred top] {k : Int}

instance : DecidablePred UpToGreatest :=
  fun k => inferInstanceAs (Decidable (k ≤ 536870911))

instance (last : RangeEnd) : Decidable (last.Reaches top k) :=
  match last with
  | .number n => inferInstanceAs (Decidable (∃ v ∈ n.integer?, k ≤ v))
  | .max _ => inferInstanceAs (Decidable (top k))

instance (r : NumberRange) : Decidable (r.Covers top k) :=
  inferInstanceAs (Decidable (_ ∧ _))

instance (item : ReservedItem) : Decidable (item.Covers top k) :=
  match item with
  | .number n => inferInstanceAs (Decidable (n.integer? = some k))
  | .name _ => inferInstanceAs (Decidable False)
  | .range r => inferInstanceAs (Decidable (r.Covers top k))

instance (item : ExtensionRange) : Decidable (item.Covers top k) :=
  match item with
  | .number n => inferInstanceAs (Decidable (n.integer? = some k))
  | .range r => inferInstanceAs (Decidable (r.Covers top k))

instance (ns : List NumberLit) : Decidable (Integral ns) :=
  inferInstanceAs (Decidable (∀ n ∈ ns, n.integer?.isSome))

end

end Schema

namespace Descriptor

open Schema

/-! ## Exported numbers -/

/-- Whether a number is in a range without its last number. -/
def NumberSpan.HoldsOpen (k : Int) (s : NumberSpan) : Prop :=
  s.first.toInt ≤ k ∧ k < s.last.toInt

/-- Whether a number is in a range with its last number. -/
def NumberSpan.HoldsClosed (k : Int) (s : NumberSpan) : Prop :=
  s.first.toInt ≤ k ∧ k ≤ s.last.toInt

/-! ## Bounds -/

section
variable {k v : Int} {n : NumberLit}

theorem clamp_le_iff (low : -0x80000000 < k) (high : k < 0x7FFFFFFF) : clamp v ≤ k ↔ v ≤ k := by
  unfold clamp
  omega

theorem le_clamp_iff (low : -0x80000000 < k) (high : k < 0x7FFFFFFF) : k ≤ clamp v ↔ k ≤ v := by
  unfold clamp
  omega

/-- The number behind the greatest word is missing, but no number below that word can tell. -/
theorem lt_clamp_add_one_iff (low : -0x80000000 < k) (high : k < 0x7FFFFFFF) :
    k < clamp (clamp v + 1) ↔ k ≤ v := by
  unfold clamp
  omega

theorem ofNumber_le_iff (low : -0x80000000 < k) (high : k < 0x7FFFFFFF) (h : n.integer?.isSome) :
    (ofNumber n).toInt ≤ k ↔ ∃ v ∈ n.integer?, v ≤ k := by
  obtain ⟨v, hv⟩ := Option.isSome_iff_exists.1 h
  simp [ofNumber, hv, clamp_le_iff low high]

theorem le_ofNumber_iff (low : -0x80000000 < k) (high : k < 0x7FFFFFFF) (h : n.integer?.isSome) :
    k ≤ (ofNumber n).toInt ↔ ∃ v ∈ n.integer?, k ≤ v := by
  obtain ⟨v, hv⟩ := Option.isSome_iff_exists.1 h
  simp [ofNumber, hv, le_clamp_iff low high]

theorem lt_successor_iff (low : -0x80000000 < k) (high : k < 0x7FFFFFFF) (h : n.integer?.isSome) :
    k < (successor (ofNumber n)).toInt ↔ ∃ v ∈ n.integer?, k ≤ v := by
  obtain ⟨v, hv⟩ := Option.isSome_iff_exists.1 h
  simp [successor, ofNumber, hv, lt_clamp_add_one_iff low high]

/-- A literal that is neither above nor below a number denotes it. -/
theorem integer?_eq_some_iff :
    n.integer? = some k ↔
      (∃ v ∈ n.integer?, v ≤ k) ∧ ∃ v ∈ n.integer?, k ≤ v := by
  constructor
  · intro h
    exact ⟨⟨k, h, Int.le_refl k⟩, k, h, Int.le_refl k⟩
  · rintro ⟨⟨v, hv, hle⟩, v', hv', hge⟩
    obtain rfl : v = v' := Option.some.inj (hv.symm.trans hv')
    rw [hv, Int.le_antisymm hle hge]

/-! ## Items -/

variable {r : NumberRange}

theorem holdsOpen_singleton (low : -0x80000000 < k) (high : k < 0x7FFFFFFF)
    (h : n.integer?.isSome) : (singleton n).HoldsOpen k ↔ n.integer? = some k := by
  rw [integer?_eq_some_iff, ← ofNumber_le_iff low high h, ← lt_successor_iff low high h]
  rfl

theorem holdsOpen_ofRange (low : -0x80000000 < k) (high : k < 0x7FFFFFFF)
    (h : Integral r.literals) : (ofRange r).HoldsOpen k ↔ r.Covers UpToGreatest k := by
  obtain ⟨first, last, span⟩ := r
  obtain ⟨hfirst, hlast⟩ := List.forall_mem_cons.1 h
  refine and_congr (ofNumber_le_iff low high hfirst) ?_
  cases last with
  | number n => exact lt_successor_iff low high (hlast n List.mem_cons_self)
  | max word =>
    change k < 536870912 ↔ k ≤ 536870911
    omega

theorem holdsClosed_point (low : -0x80000000 < k) (high : k < 0x7FFFFFFF) (h : n.integer?.isSome) :
    NumberSpan.HoldsClosed k ⟨ofNumber n, ofNumber n⟩ ↔ n.integer? = some k := by
  rw [integer?_eq_some_iff, ← ofNumber_le_iff low high h, ← le_ofNumber_iff low high h]
  rfl

theorem holdsClosed_ofEnumRange (low : -0x80000000 < k) (high : k < 0x7FFFFFFF)
    (h : Integral r.literals) : (ofEnumRange r).HoldsClosed k ↔ r.Covers (fun _ => True) k := by
  obtain ⟨first, last, span⟩ := r
  obtain ⟨hfirst, hlast⟩ := List.forall_mem_cons.1 h
  refine and_congr (ofNumber_le_iff low high hfirst) ?_
  cases last with
  | number n => exact le_ofNumber_iff low high (hlast n List.mem_cons_self)
  | max _ =>
    refine iff_of_true ?_ trivial
    change k ≤ (word 0x7FFFFFFF).toInt
    rw [toInt_word]
    exact (le_clamp_iff low high).2 (Int.le_of_lt high)

/-! ## Lists -/

theorem exists_mem_filterMap_iff {α β : Type} {g : α → Option β} {P : β → Prop} {Q : α → Prop}
    {xs : List α} (h : ∀ x ∈ xs, (∃ y, g x = some y ∧ P y) ↔ Q x) :
    (∃ y ∈ xs.filterMap g, P y) ↔ ∃ x ∈ xs, Q x := by
  constructor
  · rintro ⟨y, hy, hP⟩
    obtain ⟨x, hx, hg⟩ := List.mem_filterMap.1 hy
    exact ⟨x, hx, (h x hx).1 ⟨y, hg, hP⟩⟩
  · rintro ⟨x, hx, hQ⟩
    obtain ⟨y, hg, hP⟩ := (h x hx).2 hQ
    exact ⟨y, List.mem_filterMap.2 ⟨x, hx, hg⟩, hP⟩

theorem reservedRanges_cover (low : -0x80000000 < k) (high : k < 0x7FFFFFFF)
    {lists : List Reserved} (h : Integral ((reservedItems lists).flatMap ReservedItem.literals)) :
    (∃ s ∈ reservedRanges lists, s.HoldsOpen k) ↔
      ∃ item ∈ reservedItems lists, item.Covers UpToGreatest k := by
  refine exists_mem_filterMap_iff fun item hitem => ?_
  have hitem' : Integral item.literals := fun n hn => h n (List.mem_flatMap.2 ⟨item, hitem, hn⟩)
  cases item with
  | number n => simp [ReservedItem.Covers, holdsOpen_singleton low high (hitem' n List.mem_cons_self)]
  | name t => simp [ReservedItem.Covers]
  | range r => simp [ReservedItem.Covers, holdsOpen_ofRange low high hitem']

theorem enumReservedRanges_cover (low : -0x80000000 < k) (high : k < 0x7FFFFFFF)
    {lists : List Reserved} (h : Integral ((reservedItems lists).flatMap ReservedItem.literals)) :
    (∃ s ∈ enumReservedRanges lists, s.HoldsClosed k) ↔
      ∃ item ∈ reservedItems lists, item.Covers (fun _ => True) k := by
  refine exists_mem_filterMap_iff fun item hitem => ?_
  have hitem' : Integral item.literals := fun n hn => h n (List.mem_flatMap.2 ⟨item, hitem, hn⟩)
  cases item with
  | number n => simp [ReservedItem.Covers, holdsClosed_point low high (hitem' n List.mem_cons_self)]
  | name t => simp [ReservedItem.Covers]
  | range r => simp [ReservedItem.Covers, holdsClosed_ofEnumRange low high hitem']

theorem extensionRanges_cover (low : -0x80000000 < k) (high : k < 0x7FFFFFFF)
    {e : Option Extensions}
    (h : Integral ((e.toList.flatMap Extensions.ranges).flatMap ExtensionRange.literals)) :
    (∃ s ∈ extensionRanges e, s.HoldsOpen k) ↔
      ∃ item ∈ e.toList.flatMap Extensions.ranges, item.Covers UpToGreatest k := by
  rw [extensionRanges, ← List.filterMap_eq_map]
  refine exists_mem_filterMap_iff fun item hitem => ?_
  have hitem' : Integral item.literals := fun n hn => h n (List.mem_flatMap.2 ⟨item, hitem, hn⟩)
  cases item with
  | number n => simp [ExtensionRange.Covers, holdsOpen_singleton low high (hitem' n List.mem_cons_self)]
  | range r => simp [ExtensionRange.Covers, holdsOpen_ofRange low high hitem']

end

theorem reservedNames_eq (lists : List Reserved) :
    reservedNames lists = (lists.flatMap Reserved.items).filterMap ReservedItem.name? := by
  unfold reservedNames
  congr 1
  funext item
  cases item <;> rfl

/-- The exported ranges cover exactly the declared numbers, and the reserved names are exported in
their order.

Of the numbers that fit in 32 bits, the least and the greatest are left out: all literals beyond them
are cut to these two. -/
theorem ranges_cover (version3 : Bool) :
    (∀ m : Message, Integral m.rangeLiterals → ∀ k : Int, -0x80000000 < k → k < 0x7FFFFFFF →
      ((∃ s ∈ (ofMessage version3 m).reservedRanges, s.HoldsOpen k) ↔
        ∃ item ∈ m.reservedItems, item.Covers UpToGreatest k) ∧
      ((∃ s ∈ (ofMessage version3 m).extensionRanges, s.HoldsOpen k) ↔
        ∃ item ∈ m.extensionItems, item.Covers UpToGreatest k)) ∧
    (∀ e : EnumDecl, Integral e.rangeLiterals → ∀ k : Int, -0x80000000 < k → k < 0x7FFFFFFF →
      ((∃ s ∈ (ofEnum e).reservedRanges, s.HoldsClosed k) ↔
        ∃ item ∈ e.reservedItems, item.Covers (fun _ => True) k)) ∧
    (∀ m : Message,
      (ofMessage version3 m).reservedNames = m.reservedItems.filterMap ReservedItem.name?) ∧
    ∀ e : EnumDecl, (ofEnum e).reservedNames = e.reservedItems.filterMap ReservedItem.name? := by
  refine ⟨fun m hm k low high => ?_, fun e he k low high => enumReservedRanges_cover low high he,
    fun m => ?_, fun e => reservedNames_eq e.reserved⟩
  · rw [ofMessage_eq]
    exact ⟨reservedRanges_cover low high fun n hn => hm n (List.mem_append_left _ hn),
      extensionRanges_cover low high fun n hn => hm n (List.mem_append_right _ hn)⟩
  · rw [ofMessage_eq]
    exact reservedNames_eq m.reserved

/-- Literals beyond 32 bits on either side, and two meanings of `max`. -/
theorem ranges_cover_saturated :
    let s : Span := ⟨1, 1, 0, 1⟩
    let items : List ReservedItem :=
      [.range ⟨⟨"-9223372036854775808", s⟩, .number ⟨"5", s⟩, s⟩, .name ⟨"x", s⟩,
        .range ⟨⟨"10", s⟩, .max ⟨"max", s⟩, s⟩]
    let m : Message := ⟨⟨"M", s⟩, [], [], [], [], [], [⟨items, s⟩],
      some ⟨[.number ⟨"9223372036854775807", s⟩], [], s⟩, [], s⟩
    let e : EnumDecl := ⟨⟨"E", s⟩, [], [], [⟨items, s⟩], s⟩
    (∃ r ∈ (ofMessage true m).reservedRanges, r.HoldsOpen (-2147483647)) ∧
    (¬∃ r ∈ (ofMessage true m).reservedRanges, r.HoldsOpen 536870912) ∧
    (¬∃ r ∈ (ofMessage true m).extensionRanges, r.HoldsOpen 2147483646) ∧
    (∃ r ∈ (ofEnum e).reservedRanges, r.HoldsClosed 2147483646) ∧
    (ofMessage true m).reservedNames = ["x"] := by
  intro s items m e
  obtain ⟨hmessage, henum, hnames, -⟩ := ranges_cover true
  have hm : Integral m.rangeLiterals := by decide
  have he : Integral e.rangeLiterals := by decide
  refine ⟨(hmessage m hm _ (by decide) (by decide)).1.2 (by decide),
    (not_congr (hmessage m hm _ (by decide) (by decide)).1).2 (by decide),
    (not_congr (hmessage m hm _ (by decide) (by decide)).2).2 (by decide),
    (henum e he _ (by decide) (by decide)).2 (by decide), hnames m⟩

end Descriptor

end ProtoDecl
