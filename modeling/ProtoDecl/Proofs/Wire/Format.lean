import ProtoDecl.Descriptor.Wire

/-!
# Reading the wire format

The way back from bytes to numbered fields, as the format prescribes it for any message.  Nothing
here knows of descriptors.

* `Width` is what a reader lets a number take.  Common readers hold every number in a word of 64
  bits; the format itself knows no limit.
* `readVarint?`, `readField?` and `decode?` read a number, a field and a message.  A message is read
  up to its last byte, and what is left over is no field.
* `decode?_encode` says that every message of proper fields is read as it was written, provided that
  the reader can hold its length.
-/

namespace ProtoDecl.Descriptor.Wire

/-! ## Numbers -/

/-- What a reader lets a number take. -/
inductive Width where
  /-- However many bytes there are. -/
  | unlimited
  /-- A word of 64 bits, in at most ten bytes. -/
  | word
deriving DecidableEq, Repr

/-- Whether a reader accepts a number that was written in `length` bytes. -/
def Width.admits : Width → (length n : Nat) → Bool
  | unlimited, _, _ => true
  | word, length, n => decide (length ≤ 10) && decide (n < UInt64.size)

/-- Whether a reader can hold a number. -/
def Width.Holds : Width → Nat → Prop
  | unlimited, _ => True
  | word, n => n < UInt64.size

/-- A number in groups of seven bits, the lowest first, and the bytes behind it. -/
def readVarint? : List UInt8 → Option (Nat × List UInt8)
  | [] => none
  | b :: rest =>
    if b.toNat < 128 then some (b.toNat, rest)
    else (readVarint? rest).map fun (n, after) => (b.toNat - 128 + 128 * n, after)

/-- A number that the reader accepts. -/
def readNumber? (width : Width) (bytes : List UInt8) : Option (Nat × List UInt8) :=
  (readVarint? bytes).filter fun (n, after) => width.admits (bytes.length - after.length) n

theorem length_of_readVarint? {bytes after : List UInt8} {n : Nat}
    (h : readVarint? bytes = some (n, after)) : after.length < bytes.length := by
  induction bytes generalizing n with
  | nil => cases h
  | cons b rest ih =>
    rw [readVarint?] at h
    split at h
    · cases h
      exact Nat.lt_succ_self _
    · obtain ⟨⟨m, after'⟩, hrest, heq⟩ := Option.map_eq_some_iff.1 h
      cases heq
      exact Nat.lt_succ_of_lt (ih hrest)

theorem length_of_readNumber? {width : Width} {bytes after : List UInt8} {n : Nat}
    (h : readNumber? width bytes = some (n, after)) : after.length < bytes.length :=
  length_of_readVarint? (Option.eq_some_of_filter_eq_some h)

/-- A number is read as it was written, whatever follows. -/
theorem readVarint?_varint (n : Nat) (after : List UInt8) :
    readVarint? (varint n ++ after) = some (n, after) := by
  fun_induction varint n with
  | case1 n h =>
    have hbyte : (UInt8.ofNat n).toNat = n := by
      rw [UInt8.toNat_ofNat']
      omega
    rw [List.singleton_append, readVarint?, hbyte, if_pos h]
  | case2 n h ih =>
    have hbyte : (UInt8.ofNat (n % 128 + 128)).toNat = n % 128 + 128 := by
      rw [UInt8.toNat_ofNat']
      omega
    have hnumber : n % 128 + 128 - 128 + 128 * (n / 128) = n := by omega
    rw [List.cons_append, readVarint?, hbyte, if_neg (by omega), ih, Option.map_some]
    dsimp only
    rw [hnumber]

/-- With every byte a number loses seven bits. -/
theorem length_varint_le {n k : Nat} (h : n < Nat.pow 128 (k + 1)) : (varint n).length ≤ k + 1 := by
  induction k generalizing n with
  | zero =>
    rw [varint, if_pos h]
    exact Nat.le_refl _
  | succ k ih =>
    rw [varint]
    split
    · exact Nat.le_add_left 1 _
    · have hdiv : n / 128 < Nat.pow 128 (k + 1) := (Nat.div_lt_iff_lt_mul (by decide)).2 h
      exact Nat.succ_le_succ (ih hdiv)

theorem readNumber?_varint {width : Width} {n : Nat} (h : width.Holds n) (after : List UInt8) :
    readNumber? width (varint n ++ after) = some (n, after) := by
  have hlength : (varint n ++ after).length - after.length = (varint n).length := by
    rw [List.length_append, Nat.add_sub_cancel]
  have hadmits : width.admits ((varint n ++ after).length - after.length) n = true := by
    rw [hlength]
    cases width with
    | unlimited => rfl
    | word =>
      have hbytes : (varint n).length ≤ 9 + 1 :=
        length_varint_le (Nat.lt_trans h (by decide : UInt64.size < Nat.pow 128 10))
      exact Bool.and_eq_true_iff.2 ⟨decide_eq_true hbytes, decide_eq_true h⟩
  rw [readNumber?, readVarint?_varint, Option.filter_some]
  exact if_pos hadmits

/-! ## Fields -/

/-- A field, and the bytes behind it.  Its key holds its number and how its value is written.  Values
of other sorts, which descriptors do not have, are refused. -/
def readField? (width : Width) (bytes : List UInt8) : Option (Field × List UInt8) := do
  let (key, rest) ← readNumber? width bytes
  if key < 8 ∨ UInt32.size ≤ key then
    none
  else
    match key % 8 with
    | 0 =>
      let (n, after) ← readNumber? width rest
      return (⟨key / 8, .varint n⟩, after)
    | 2 =>
      let (length, after) ← readNumber? width rest
      if after.length < length then none
      else return (⟨key / 8, .block (after.take length)⟩, after.drop length)
    | _ => none

theorem length_of_readField? {width : Width} {bytes after : List UInt8} {f : Field}
    (h : readField? width bytes = some (f, after)) : after.length < bytes.length := by
  obtain ⟨⟨key, rest⟩, hkey, h⟩ := Option.bind_eq_some_iff.1 h
  have hrest := length_of_readNumber? hkey
  dsimp only at h
  split at h
  · cases h
  · split at h
    · obtain ⟨⟨n, after'⟩, hn, h⟩ := Option.bind_eq_some_iff.1 h
      have hafter := length_of_readNumber? hn
      cases h
      exact Nat.lt_trans hafter hrest
    · obtain ⟨⟨length, after'⟩, hn, h⟩ := Option.bind_eq_some_iff.1 h
      have hafter := length_of_readNumber? hn
      dsimp only at h
      split at h
      · cases h
      · cases h
        rw [List.length_drop]
        omega
    · cases h

/-- The fields of a message, read from all of its bytes. -/
def decode? (width : Width) (bytes : List UInt8) : Option (List Field) :=
  if bytes = [] then some []
  else
    match _h : readField? width bytes with
    | none => none
    | some (f, after) => (decode? width after).map (f :: ·)
termination_by bytes.length
decreasing_by exact length_of_readField? _h

/-- Whether a field is one that the format admits. -/
structure Field.Proper (f : Field) : Prop where
  number_pos : 0 < f.number
  number_lt : f.number < 536870912
  value_lt : ∀ n, f.value = .varint n → n < UInt64.size

theorem Width.Holds.mono {width : Width} {m n : Nat} (h : width.Holds n) (hle : m ≤ n) :
    width.Holds m := by
  cases width with
  | unlimited => trivial
  | word => exact Nat.lt_of_le_of_lt hle h

theorem Width.holds_of_lt {width : Width} {n : Nat} (h : n < UInt64.size) : width.Holds n := by
  cases width with
  | unlimited => trivial
  | word => exact h

/-- A block is shorter than the field that holds it. -/
theorem length_lt_encodeField {f : Field} {bytes : List UInt8} (h : f.value = .block bytes) :
    bytes.length < (encodeField f).length := by
  have hkey : 0 < (varint (f.number * 8 + 2)).length := by
    rw [varint]
    split <;> exact Nat.succ_pos _
  simp only [encodeField, h, List.length_append]
  omega

/-- A field is read as it was written, whatever follows. -/
theorem readField?_encodeField {width : Width} {f : Field} (hf : f.Proper)
    (hlength : width.Holds (encodeField f).length) (after : List UInt8) :
    readField? width (encodeField f ++ after) = some (f, after) := by
  obtain ⟨hpos, hlt, hvalue⟩ := hf
  have hsize : UInt32.size = 4294967296 := rfl
  obtain ⟨number, value⟩ := f
  cases value with
  | varint n =>
    have hkey : width.Holds (number * 8) := Width.holds_of_lt (by
      have : UInt64.size = 18446744073709551616 := rfl
      dsimp only at hlt
      omega)
    have hn : width.Holds n := Width.holds_of_lt (hvalue n rfl)
    dsimp only at hpos hlt
    rw [readField?, encodeField, List.append_assoc, readNumber?_varint hkey]
    simp only [Option.bind_eq_bind, Option.bind_some]
    rw [if_neg (by omega), Nat.mul_mod_left, Nat.mul_div_cancel _ (by decide)]
    simp only [readNumber?_varint hn, Option.bind_some]
    rfl
  | block bytes =>
    have hkey : width.Holds (number * 8 + 2) := Width.holds_of_lt (by
      have : UInt64.size = 18446744073709551616 := rfl
      dsimp only at hlt
      omega)
    have hn : width.Holds bytes.length :=
      hlength.mono (Nat.le_of_lt (length_lt_encodeField rfl))
    dsimp only at hpos hlt
    rw [readField?, encodeField, List.append_assoc, List.append_assoc, readNumber?_varint hkey]
    simp only [Option.bind_eq_bind, Option.bind_some]
    have hmod : (number * 8 + 2) % 8 = 2 := by omega
    have hdiv : (number * 8 + 2) / 8 = number := by omega
    rw [if_neg (by omega), hmod, hdiv]
    simp only [readNumber?_varint hn, Option.bind_some]
    rw [if_neg (by rw [List.length_append]; omega), List.take_left, List.drop_left]
    rfl

/-! ## Messages -/

theorem encodeField_ne_nil (f : Field) : encodeField f ≠ [] := by
  have hne : ∀ n, varint n ≠ [] := by
    intro n
    rw [varint]
    split <;> exact List.cons_ne_nil _ _
  unfold encodeField
  split <;> simp [hne]

theorem encode_cons (f : Field) (fields : List Field) :
    encode (f :: fields) = encodeField f ++ encode fields :=
  List.flatMap_cons

/-- A block inside a message is shorter than the message. -/
theorem length_lt_encode {fields : List Field} {f : Field} (hf : f ∈ fields) {bytes : List UInt8}
    (h : f.value = .block bytes) : bytes.length < (encode fields).length := by
  obtain ⟨before, after, rfl⟩ := List.append_of_mem hf
  have hlt := length_lt_encodeField h
  rw [encode, List.flatMap_append, List.flatMap_cons, List.length_append, List.length_append]
  omega

/-- A message is read as it was written. -/
theorem decode?_encode {width : Width} {fields : List Field} (hfields : ∀ f ∈ fields, f.Proper)
    (hlength : width.Holds (encode fields).length) : decode? width (encode fields) = some fields := by
  induction fields with
  | nil => rw [decode?, if_pos (by rfl)]
  | cons f fields ih =>
    rw [encode_cons] at hlength ⊢
    rw [List.length_append] at hlength
    have hne : encodeField f ++ encode fields ≠ [] :=
      List.append_ne_nil_of_left_ne_nil (encodeField_ne_nil f) _
    have hfield := readField?_encodeField (hfields f List.mem_cons_self)
      (hlength.mono (Nat.le_add_right _ _)) (encode fields)
    have hrest := ih (fun g hg => hfields g (List.mem_cons_of_mem _ hg))
      (hlength.mono (Nat.le_add_left _ _))
    rw [decode?, if_neg hne]
    split
    · rename_i hnone
      rw [hfield] at hnone
      cases hnone
    · rename_i f' after hsome
      rw [hfield] at hsome
      cases hsome
      rw [hrest]
      rfl

end ProtoDecl.Descriptor.Wire
