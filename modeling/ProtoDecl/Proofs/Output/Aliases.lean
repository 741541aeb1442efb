import Mathlib.Data.List.ReduceOption
import ProtoDecl.Proofs.Fresh
import ProtoDecl.Proofs.Output.Blocks

/-!
# Aliases of imports

Every import that is not passed on gets an alias, and the aliases of a file tell its imports apart.

* `FirstFit` says which name an import gets where some names are taken.  The search for it ends, for
  the numbered names differ from each other and from the name without a number
  (`freeAlias_firstFit`).
* `Text.isAlias` is the form of an alias.  What is made of a path has it, whatever the path is
  (`isAlias_wantedAlias`), and a number at the end keeps it.

What one import takes, the imports behind it find taken; so the facts about a list of imports are
stated for any names taken before, and the induction goes along the list.
-/

namespace ProtoDecl

namespace Text

/-- Whether a text is a small letter or an underscore, and then small letters, digits and
underscores. -/
def isAlias : List Char → Bool
  | [] => false
  | c :: rest => (c.isLower || c == '_') && rest.all fun d => d.isLower || d.isDigit || d == '_'

end Text

namespace TypeScript

open Schema Text

/-! ## The name that fits first -/

/-- The name that an import gets which would like to have `base`, where some names are taken: `base`
if it is free, and otherwise `base` with the least number from two on that is free. -/
inductive FirstFit (taken : List String) (base : String) : String → Prop
  | plain (free : base ∉ taken) : FirstFit taken base base
  | numbered (clash : base ∈ taken) (n : Nat) (two_le : 2 ≤ n) (free : base ++ toString n ∉ taken)
      (least : ∀ j, 2 ≤ j → j < n → base ++ toString j ∈ taken) :
      FirstFit taken base (base ++ toString n)

/-- The names that are tried for an import, in order. -/
def aliasCandidate (base : String) : Nat → String
  | 0 => base
  | n + 1 => base ++ toString (n + 2)

/-- A number can be read back from its digits. -/
theorem toString_nat_injective : Function.Injective (toString : Nat → String) := by
  intro m n h
  rw [Nat.toString_eq_ofList_toDigits, Nat.toString_eq_ofList_toDigits, String.ofList_inj] at h
  rw [← Nat.ofDigitChars_ten_toDigits (n := m), h, Nat.ofDigitChars_ten_toDigits]

theorem aliasCandidate_injective (base : String) : Function.Injective (aliasCandidate base) := by
  have hnumber : ∀ n, base ++ toString (n + 2) ≠ base := by
    intro n h
    rw [String.append_eq_left_iff] at h
    exact Nat.repr_ne_empty h
  intro m n h
  cases m with
  | zero =>
    cases n with
    | zero => rfl
    | succ n => exact absurd h.symm (hnumber n)
  | succ m =>
    cases n with
    | zero => exact absurd h (hnumber m)
    | succ n =>
      have := toString_nat_injective ((String.append_right_inj base).1 h)
      omega

/-- The first candidate that is free is the name that fits first. -/
theorem FirstFree.firstFit {taken : List String} {base : String} {n : Nat}
    (h : FirstFree taken (aliasCandidate base) n) :
    FirstFit taken base (aliasCandidate base n) := by
  cases n with
  | zero => exact .plain h.free
  | succ n =>
    refine .numbered (h.clash 0 (Nat.succ_pos n)) (n + 2) (by omega) h.free fun j hj hlt => ?_
    obtain ⟨i, rfl⟩ : ∃ i, j = i + 2 := ⟨j - 2, by omega⟩
    exact h.clash (i + 1) (by omega)

/-- The search ends with the name that fits first. -/
theorem freeAlias_firstFit (taken : List String) (base : String) :
    FirstFit taken base (freeAlias taken base) := by
  obtain ⟨n, hle, hfirst⟩ := exists_firstFree taken (aliasCandidate_injective base)
  have hcandidates : base :: (List.range taken.length).map (fun i => base ++ toString (i + 2)) =
      (List.range (taken.length + 1)).map (aliasCandidate base) := by
    rw [List.range_succ_eq_map, List.map_cons, List.map_map]
    rfl
  have hname : freeAlias taken base = aliasCandidate base n := by
    rw [freeAlias, hcandidates, find?_firstFree hfirst (Nat.lt_succ_of_le hle)]
    rfl
  rw [hname]
  exact FirstFree.firstFit hfirst

namespace FirstFit

variable {taken taken' : List String} {base name : String}

theorem not_mem (h : FirstFit taken base name) : name ∉ taken := by
  cases h with
  | plain free => exact free
  | numbered _ n _ free _ => exact free

/-- The order of the taken names does not matter. -/
theorem of_mem_iff (h : FirstFit taken base name) (hmem : ∀ x, x ∈ taken ↔ x ∈ taken') :
    FirstFit taken' base name := by
  cases h with
  | plain free => exact .plain (mt (hmem _).2 free)
  | numbered clash n two_le free least =>
    exact .numbered ((hmem _).1 clash) n two_le (mt (hmem _).2 free) fun j hj hlt =>
      (hmem _).1 (least j hj hlt)

end FirstFit

/-! ## The form of an alias -/

theorem isLower_toLower {c : Char} (h : c.isUpper = true) : c.toLower.isLower = true := by
  have hupper : c.val ≥ 'A'.val ∧ c.val ≤ 'Z'.val := of_decide_eq_true h
  have hlow : 65 ≤ c.val.toNat := UInt32.le_iff_toNat_le.1 hupper.1
  have hhigh : c.val.toNat ≤ 90 := UInt32.le_iff_toNat_le.1 hupper.2
  have hsum : (c.val + 32).toNat = c.val.toNat + 32 := by
    have hlt : c.val.toNat + 32 < 2 ^ 32 := by omega
    rw [UInt32.toNat_add]
    exact Nat.mod_eq_of_lt hlt
  have hlow' : 97 ≤ (c.val + 32).toNat := by omega
  have hhigh' : (c.val + 32).toNat ≤ 122 := by omega
  unfold Char.toLower
  rw [dif_pos hupper]
  exact Bool.and_eq_true_iff.2 ⟨decide_eq_true (UInt32.le_iff_toNat_le.2 hlow'),
    decide_eq_true (UInt32.le_iff_toNat_le.2 hhigh')⟩

/-- A character of an alias, behind the first. -/
theorem mem_snake {afterSmall : Bool} {text : List Char} :
    ∀ c ∈ snake afterSmall text, (c.isLower || c.isDigit || c == '_') = true := by
  fun_induction snake afterSmall text with
  | case1 => simp
  | case2 afterSmall c rest hupper ih =>
    intro d hd
    rcases List.mem_append.1 hd with hd | hd
    · split at hd <;> simp_all
    · rcases List.mem_cons.1 hd with rfl | hd
      · simp [isLower_toLower hupper]
      · exact ih d hd
  | case3 afterSmall c rest hupper halphanum ih =>
    intro d hd
    rcases List.mem_cons.1 hd with rfl | hd
    · have hkind : (d.isUpper || d.isLower || d.isDigit) = true := halphanum
      simp_all
    · exact ih d hd
  | case4 afterSmall c rest _ _ ih =>
    intro d hd
    rcases List.mem_cons.1 hd with rfl | hd
    · rfl
    · exact ih d hd

theorem isAlias_asName {word : List Char}
    (h : ∀ c ∈ word, (c.isLower || c.isDigit || c == '_') = true) :
    isAlias (asName word) = true := by
  cases word with
  | nil => rfl
  | cons c rest =>
    rw [asName]
    split
    · rw [isAlias, List.all_eq_true.2 h]
      rfl
    · obtain ⟨hc, hrest⟩ := List.forall_mem_cons.1 h
      refine Bool.and_eq_true_iff.2 ⟨?_, List.all_eq_true.2 hrest⟩
      simp_all

/-- Whatever the path is, the name made of it has the form of an alias. -/
theorem isAlias_wantedAlias (path : String) : isAlias (wantedAlias path).toList = true := by
  rw [wantedAlias, String.toList_ofList]
  exact isAlias_asName mem_snake

theorem isAlias_append_number {base : String} (h : isAlias base.toList = true) (n : Nat) :
    isAlias (base ++ toString n).toList = true := by
  have hdigits : ∀ c ∈ (toString n).toList, c.isDigit = true := by
    intro c hc
    rw [Nat.toString_eq_ofList_toDigits, String.toList_ofList] at hc
    exact Nat.isDigit_of_mem_toDigits (by decide) (by decide) hc
  rw [String.toList_append]
  cases hbase : base.toList with
  | nil =>
    rw [hbase] at h
    cases h
  | cons c rest =>
    rw [hbase] at h
    obtain ⟨hfirst, hrest⟩ := Bool.and_eq_true_iff.1 h
    refine Bool.and_eq_true_iff.2 ⟨hfirst, ?_⟩
    change (rest ++ (toString n).toList).all _ = true
    rw [List.all_append, hrest, Bool.true_and, List.all_eq_true]
    intro d hd
    simp [hdigits d hd]

theorem FirstFit.isAlias {taken : List String} {path name : String}
    (h : FirstFit taken (wantedAlias path) name) : Text.isAlias name.toList = true := by
  cases h with
  | plain => exact isAlias_wantedAlias path
  | numbered => exact isAlias_append_number (isAlias_wantedAlias path) _

/-! ## The imports of a file -/

section
variable {taken : List String} {i : Import} {imports : List Import}

theorem aliases_cons_public (h : i.modifier = some .publicly) :
    aliases taken (i :: imports) = none :: aliases taken imports := by
  rw [aliases, h]

/-- An import that is not passed on takes its name from those behind it. -/
theorem aliases_cons_named (taken : List String) (imports : List Import)
    (h : i.modifier ≠ some .publicly) :
    ∃ name, FirstFit taken (wantedAlias i.path.value) name ∧
      aliases taken (i :: imports) = some name :: aliases (name :: taken) imports := by
  refine ⟨_, freeAlias_firstFit taken (wantedAlias i.path.value), ?_⟩
  rw [aliases]
  split
  · exact absurd ‹_› h
  · rfl

theorem aliases_of_public (taken : List String) {k : Nat} (hk : imports[k]? = some i)
    (h : i.modifier = some .publicly) : (aliases taken imports)[k]? = some none := by
  induction imports generalizing taken k with
  | nil => simp at hk
  | cons j imports ih =>
    cases k with
    | zero =>
      cases hk
      rw [aliases_cons_public h]
      rfl
    | succ k =>
      by_cases hj : j.modifier = some .publicly
      · rw [aliases_cons_public hj]
        exact ih taken hk
      · obtain ⟨name, -, hnames⟩ := aliases_cons_named taken imports hj
        rw [hnames]
        exact ih (name :: taken) hk

/-- The name of an import fits first among the names taken by the imports before it, and those that
were taken from the beginning. -/
theorem aliases_of_named (taken : List String) {k : Nat} (hk : imports[k]? = some i)
    (h : i.modifier ≠ some .publicly) :
    ∃ name, (aliases taken imports)[k]? = some (some name) ∧
      FirstFit (((aliases taken imports).take k).reduceOption ++ taken) (wantedAlias i.path.value)
        name := by
  induction imports generalizing taken k with
  | nil => simp at hk
  | cons j imports ih =>
    cases k with
    | zero =>
      cases hk
      obtain ⟨name, hfit, hnames⟩ := aliases_cons_named taken imports h
      rw [hnames]
      exact ⟨name, rfl, hfit⟩
    | succ k =>
      by_cases hj : j.modifier = some .publicly
      · obtain ⟨name, hname, hfit⟩ := ih taken hk
        rw [aliases_cons_public hj]
        exact ⟨name, hname, hfit⟩
      · obtain ⟨first, -, hnames⟩ := aliases_cons_named taken imports hj
        obtain ⟨name, hname, hfit⟩ := ih (first :: taken) hk
        rw [hnames]
        refine ⟨name, hname, hfit.of_mem_iff fun x => ?_⟩
        simp [or_left_comm]

/-- No import gets a name that is taken, and no two get the same. -/
theorem aliases_nodup (taken : List String) (imports : List Import) :
    (aliases taken imports).reduceOption.Nodup ∧
      ∀ name ∈ (aliases taken imports).reduceOption, name ∉ taken := by
  induction imports generalizing taken with
  | nil => exact ⟨List.nodup_nil, by simp [aliases]⟩
  | cons i imports ih =>
    by_cases hi : i.modifier = some .publicly
    · rw [aliases_cons_public hi]
      exact ih taken
    · obtain ⟨first, hfit, hnames⟩ := aliases_cons_named taken imports hi
      obtain ⟨hnodup, hfree⟩ := ih (first :: taken)
      rw [hnames, List.reduceOption_cons_of_some, List.nodup_cons, List.forall_mem_cons]
      refine ⟨⟨fun hmem => hfree first hmem List.mem_cons_self, hnodup⟩, hfit.not_mem, ?_⟩
      exact fun name hname htaken => hfree name hname (List.mem_cons_of_mem first htaken)

theorem isAlias_of_mem_aliases (taken : List String) (imports : List Import) :
    ∀ name ∈ (aliases taken imports).reduceOption, Text.isAlias name.toList = true := by
  induction imports generalizing taken with
  | nil => simp [aliases]
  | cons i imports ih =>
    by_cases hi : i.modifier = some .publicly
    · rw [aliases_cons_public hi]
      exact ih taken
    · obtain ⟨first, hfit, hnames⟩ := aliases_cons_named taken imports hi
      rw [hnames, List.reduceOption_cons_of_some, List.forall_mem_cons]
      exact ⟨hfit.isAlias, ih (first :: taken)⟩

/-- Without the imports that are passed on, the names are the same. -/
theorem aliases_filter (taken : List String) (imports : List Import) :
    (aliases taken (imports.filter fun i => i.modifier ≠ some .publicly)).reduceOption =
      (aliases taken imports).reduceOption := by
  induction imports generalizing taken with
  | nil => rfl
  | cons i imports ih =>
    by_cases hi : i.modifier = some .publicly
    · rw [aliases_cons_public hi, List.filter_cons_of_neg (by simpa using hi), ih]
      rfl
    · rw [List.filter_cons_of_pos (by simpa using hi), aliases, aliases]
      split
      · exact absurd ‹_› hi
      · rw [List.reduceOption_cons_of_some, List.reduceOption_cons_of_some, ih]

end

/-! ## The lines of the imports -/

theorem linesAt_zero (n : Nat) (texts : List String) :
    linesAt n 0 texts = String.join (texts.map (· ++ "\n")) := by
  rw [linesAt]
  exact congrArg String.join (List.map_congr_left fun text _ => lineAt_zero n text)

/-- The output begins with the lines of the imports. -/
theorem generate_eq_importLines_append (f : File) (o : Options) :
    ∃ rest, generate f o =
      String.join ((importLines o.resolve f.imports).map (· ++ "\n")) ++ rest := by
  rw [generate_eq_intercalate, fileBlocks, importBlocks]
  split
  · rename_i hlines
    rw [hlines]
    exact ⟨_, String.empty_append.symm⟩
  · rename_i first others hlines
    simp only [List.append_assoc, List.cons_append, List.nil_append, List.map_cons]
    rw [← append_join_eq_intercalate, Block.render, linesAt_zero, hlines]
    exact ⟨_, rfl⟩

theorem getElem?_importLines {resolve : String → String} {imports : List Import} {k : Nat}
    {i : Import} {name? : Option String} (hi : imports[k]? = some i)
    (hname : (aliases [] imports)[k]? = some name?) :
    (importLines resolve imports)[k]? = some (importLine resolve i name?) := by
  rw [importLines, List.getElem?_zipWith, hi, hname]

/-- The aliases of a file tell its imports apart, have the form of an alias, and fit first.

The output begins with a line for each import.  An import that is passed on has no alias, and the
aliases are those that the file would have without it.  Any other import gets the name made of its
path if none before it has taken that name, and else that name with the least number from two on
that none before it has taken. -/
theorem aliases_first_fit (f : File) (o : Options) :
    let names := aliases [] f.imports
    let lines := importLines o.resolve f.imports
    (∃ rest, generate f o = String.join (lines.map (· ++ "\n")) ++ rest) ∧
    names.length = f.imports.length ∧ lines.length = f.imports.length ∧
    names.reduceOption.Nodup ∧
    (∀ name ∈ names.reduceOption, Text.isAlias name.toList = true) ∧
    (∀ (k : Nat) (i : Import), f.imports[k]? = some i → i.modifier = some .publicly →
      names[k]? = some none ∧
      lines[k]? = some ("export * from " ++ ("\"" ++ o.resolve i.path.value ++ "\";"))) ∧
    (∀ (k : Nat) (i : Import), f.imports[k]? = some i → i.modifier ≠ some .publicly →
      ∃ name, names[k]? = some (some name) ∧
        FirstFit (names.take k).reduceOption (wantedAlias i.path.value) name ∧
        lines[k]? = some
          ("import type * as " ++ name ++ " from " ++ ("\"" ++ o.resolve i.path.value ++ "\";"))) ∧
    names.reduceOption =
      (aliases [] (f.imports.filter fun i => i.modifier ≠ some .publicly)).reduceOption := by
  intro names lines
  refine ⟨generate_eq_importLines_append f o, length_aliases [] f.imports,
    length_importLines o.resolve f.imports, (aliases_nodup [] f.imports).1,
    isAlias_of_mem_aliases [] f.imports, fun k i hk hi => ?_, fun k i hk hi => ?_,
    (aliases_filter [] f.imports).symm⟩
  · have hnone := aliases_of_public [] hk hi
    exact ⟨hnone, getElem?_importLines hk hnone⟩
  · obtain ⟨name, hname, hfit⟩ := aliases_of_named [] hk hi
    rw [List.append_nil] at hfit
    exact ⟨name, hname, hfit, getElem?_importLines hk hname⟩

/-- A numbered name meets one that ends in a digit by itself; the import that is passed on between
them has none. -/
theorem aliases_first_fit_digits :
    let s : Span := ⟨1, 1, 0, 1⟩
    let f : File := { imports := [⟨⟨"a/types.proto", s⟩, none, s⟩,
      ⟨⟨"x/types.proto", s⟩, some .publicly, s⟩, ⟨⟨"b\\types", s⟩, some .weak, s⟩,
      ⟨⟨"types2.proto", s⟩, none, s⟩] }
    aliases [] f.imports = [some "types", none, some "types2", some "types22"] ∧
    FirstFit ["types", "types2"] "types2" "types22" ∧
    (importLines id f.imports)[1]? =
      some ("export * from " ++ ("\"" ++ "x/types.proto" ++ "\";")) := by
  intro s f
  obtain ⟨-, -, -, -, -, hpublic, hnamed, -⟩ := aliases_first_fit f {}
  have hnames : aliases [] f.imports = [some "types", none, some "types2", some "types22"] := by
    decide +kernel
  obtain ⟨name, hname, hfit, -⟩ := hnamed 3 ⟨⟨"types2.proto", s⟩, none, s⟩ rfl (by decide)
  have hwanted : wantedAlias "types2.proto" = "types2" := by decide +kernel
  rw [hnames] at hname hfit
  cases hname
  rw [hwanted] at hfit
  exact ⟨hnames, hfit, (hpublic 1 ⟨⟨"x/types.proto", s⟩, some .publicly, s⟩ rfl rfl).2⟩

end TypeScript

end ProtoDecl
