import ProtoDecl.Proofs.Effects
import ProtoDecl.Proofs.Output.Aliases
import ProtoDecl.Proofs.Provenance.Source

/-!
# Module specifiers

Every import names a module by a string literal.  `Denotes` says which text such a literal stands
for.  A resolved path is written between quotes as it is, which denotes the path just where nothing
in it has a meaning of its own there: neither a quote, nor a backslash, nor a line break
(`specifiers_denote_iff`).

One direction is that a plain text denotes itself.  The other one counts: an escape sequence stands
for fewer code units than it is written with (`Characters.length_le`), so whatever a line may be cut
into, the literal in it is too short for the path if there was anything to escape.
-/

namespace ProtoDecl

namespace Text

/-! ## Segments from the front -/

theorem segments_append_cons {separator : Char} {first : List Char} (rest : List Char)
    (h : separator ∉ first) :
    segments separator (first ++ separator :: rest) = first :: segments separator rest := by
  induction first with
  | nil => exact if_pos rfl
  | cons c first ih =>
    have hne : ¬c = separator := fun heq => h (heq ▸ List.mem_cons_self)
    have hfirst := ih fun hmem => h (List.mem_cons_of_mem c hmem)
    rw [List.cons_append, segments, if_neg hne, hfirst]

/-- The first segment of a text ends at the first separator. -/
theorem head_segments_append (separator : Char) (first rest : List Char) :
    ∃ segment others, segments separator (first ++ separator :: rest) = segment :: others ∧
      segment <+: first := by
  induction first with
  | nil => exact ⟨[], segments separator rest, if_pos rfl, List.prefix_rfl⟩
  | cons c first ih =>
    obtain ⟨segment, others, hsegments, hbegins⟩ := ih
    rw [List.cons_append, segments]
    split
    · exact ⟨[], _, rfl, List.nil_prefix⟩
    · rw [hsegments]
      exact ⟨c :: segment, others, rfl, List.cons_prefix_cons.2 ⟨rfl, hbegins⟩⟩

/-- The lines of a text that begins with some lines, up to the first of them that has a line break
in it. -/
theorem segments_lines {lines : List (List Char)} (rest : List Char) {k : Nat} {line : List Char}
    (hk : lines[k]? = some line) (h : ∀ j < k, ∀ l ∈ lines[j]?, '\n' ∉ l) :
    ∃ segment, (segments '\n' ((lines.map (· ++ ['\n'])).flatten ++ rest))[k]? = some segment ∧
      segment <+: line ∧ ('\n' ∉ line → segment = line) := by
  induction lines generalizing k with
  | nil => cases hk
  | cons first lines ih =>
    have hfront : ((first :: lines).map (· ++ ['\n'])).flatten ++ rest =
        first ++ '\n' :: ((lines.map (· ++ ['\n'])).flatten ++ rest) := by simp
    rw [hfront]
    cases k with
    | zero =>
      cases hk
      obtain ⟨segment, others, hsegments, hbegins⟩ := head_segments_append '\n' line
        ((lines.map (· ++ ['\n'])).flatten ++ rest)
      refine ⟨segment, by rw [hsegments]; rfl, hbegins, fun hline => ?_⟩
      rw [segments_append_cons _ hline] at hsegments
      exact (List.cons.inj hsegments).1.symm
    | succ k =>
      rw [segments_append_cons _ (h 0 (Nat.succ_pos k) first rfl)]
      exact ih hk fun j hj => h (j + 1) (Nat.succ_lt_succ hj)

end Text

namespace TypeScript

open Schema Text

/-! ## String literals -/

/-- The code units of a code point. -/
def codeUnits (n : Nat) : List Nat :=
  if n < 0x10000 then [n] else [0xD800 + (n - 0x10000) / 0x400, 0xDC00 + (n - 0x10000) % 0x400]

/-- The code units of a text. -/
def utf16 (text : List Char) : List Nat :=
  text.flatMap fun c => codeUnits c.toNat

def hexDigits : List Char :=
  "0123456789abcdef".toList

/-- The number that is written with the given hexadecimal digits. -/
def hexNumber (digits : List Char) : Nat :=
  digits.foldl (fun n c => 16 * n + hexDigits.idxOf c.toLower) 0

/-- The characters that do not stand for themselves behind a backslash. -/
def escapeLetters : List Char :=
  "bfnrtvxu0123456789\n\r\u2028\u2029".toList

/-- What may stand behind a backslash, and the code units that it denotes. -/
inductive EscapeSequence : List Char → List Nat → Prop
  | control {c : Char} {n : Nat}
      (h : (c, n) ∈ [('b', 8), ('t', 9), ('n', 10), ('v', 11), ('f', 12), ('r', 13)]) :
      EscapeSequence [c] [n]
  | itself {c : Char} (h : c ∉ escapeLetters) : EscapeSequence [c] (codeUnits c.toNat)
  | hex {digits : List Char} (length : digits.length = 2)
      (hex : ∀ c ∈ digits, c.toLower ∈ hexDigits) :
      EscapeSequence ('x' :: digits) [hexNumber digits]
  | unit {digits : List Char} (length : digits.length = 4)
      (hex : ∀ c ∈ digits, c.toLower ∈ hexDigits) :
      EscapeSequence ('u' :: digits) [hexNumber digits]
  | codePoint {digits : List Char} (nonempty : digits ≠ [])
      (hex : ∀ c ∈ digits, c.toLower ∈ hexDigits) (le : hexNumber digits ≤ 0x10FFFF) :
      EscapeSequence ('u' :: '\x7b' :: (digits ++ ['\x7d'])) (codeUnits (hexNumber digits))
  /-- The literal goes on in the next line. -/
  | continuation {ending : List Char}
      (h : ending ∈ [['\n'], ['\r'], ['\r', '\n'], ['\u2028'], ['\u2029']]) :
      EscapeSequence ending []

/-- Whether a text has no meaning but its own in a string literal. -/
def isPlain (text : List Char) : Bool :=
  text.all fun c => c ∉ ['"', '\\', '\n', '\r']

/-- What may stand between the quotes of a string literal, and the code units that it denotes. -/
inductive Characters : List Char → List Nat → Prop
  | nil : Characters [] []
  | plain {c : Char} {body : List Char} {value : List Nat} (h : c ∉ ['"', '\\', '\n', '\r'])
      (rest : Characters body value) : Characters (c :: body) (codeUnits c.toNat ++ value)
  | escape {sequence body : List Char} {units value : List Nat} (h : EscapeSequence sequence units)
      (rest : Characters body value) : Characters ('\\' :: (sequence ++ body)) (units ++ value)
  /-- A zero behind a backslash, which is the only digit that may stand there. -/
  | null {body : List Char} {value : List Nat} (h : ∀ c ∈ body.head?, c.isDigit = false)
      (rest : Characters body value) : Characters ('\\' :: '0' :: body) (0 :: value)

/-- Whether a string literal in double quotes denotes a text. -/
def Denotes (literal text : List Char) : Prop :=
  ∃ body, literal = '"' :: (body ++ ['"']) ∧ Characters body (utf16 text)

theorem length_codeUnits (n : Nat) : 1 ≤ (codeUnits n).length ∧ (codeUnits n).length ≤ 2 := by
  unfold codeUnits
  split <;> simp

theorem length_utf16_cons (c : Char) (text : List Char) :
    (utf16 (c :: text)).length = (codeUnits c.toNat).length + (utf16 text).length := by
  rw [utf16, List.flatMap_cons, List.length_append]
  rfl

theorem length_utf16_append (a b : List Char) :
    (utf16 (a ++ b)).length = (utf16 a).length + (utf16 b).length := by
  rw [utf16, List.flatMap_append, List.length_append]
  rfl

theorem length_le_utf16 (text : List Char) : text.length ≤ (utf16 text).length := by
  induction text with
  | nil => exact Nat.le_refl 0
  | cons c text ih =>
    have := (length_codeUnits c.toNat).1
    rw [length_utf16_cons, List.length_cons]
    omega

/-- No escape sequence stands for more than it is written with, its backslash aside. -/
theorem EscapeSequence.length_le {sequence : List Char} {units : List Nat}
    (h : EscapeSequence sequence units) : units.length ≤ (utf16 sequence).length := by
  have hle := length_le_utf16 sequence
  cases h with
  | control => exact hle
  | itself => simp [utf16]
  | hex | unit =>
    rw [List.length_cons] at hle
    rw [List.length_singleton]
    omega
  | @codePoint digits =>
    have := (length_codeUnits (hexNumber digits)).2
    rw [List.length_cons, List.length_cons] at hle
    omega
  | continuation => exact Nat.zero_le _

/-- A literal denotes at most as many code units as it is written with, and fewer if there is any
escape sequence in it. -/
theorem Characters.length_le {body : List Char} {value : List Nat} (h : Characters body value) :
    value.length ≤ (utf16 body).length ∧
      (value.length = (utf16 body).length → isPlain body = true) := by
  induction h with
  | nil => exact ⟨Nat.le_refl 0, fun _ => rfl⟩
  | @plain c body value hc _ ih =>
    rw [List.length_append, length_utf16_cons]
    refine ⟨by omega, fun heq => ?_⟩
    have hbody := ih.2 (by omega)
    rw [isPlain, List.all_cons, decide_eq_true hc]
    exact hbody
  | @escape sequence body units value hsequence _ ih =>
    have hunits := hsequence.length_le
    have hbackslash := (length_codeUnits '\\'.toNat).1
    rw [List.length_append, length_utf16_cons, length_utf16_append]
    exact ⟨by omega, fun heq => by omega⟩
  | @null body value _ _ ih =>
    have hbackslash := (length_codeUnits '\\'.toNat).1
    have hzero := (length_codeUnits '0'.toNat).1
    rw [List.length_cons, length_utf16_cons, length_utf16_cons]
    exact ⟨by omega, fun heq => by omega⟩

/-- A plain text denotes itself. -/
theorem characters_of_isPlain {text : List Char} (h : isPlain text = true) :
    Characters text (utf16 text) := by
  induction text with
  | nil => exact .nil
  | cons c text ih =>
    obtain ⟨hc, htext⟩ := Bool.and_eq_true_iff.1 h
    exact .plain (of_decide_eq_true hc) (ih htext)

/-- What denotes a text is no shorter than it, so a beginning of the text, with the quote that
closes it, is plain and all of the text. -/
theorem isPlain_of_begins {body text : List Char} (hbody : Characters body (utf16 text))
    (hbegins : body ++ ['"', ';'] <+: text ++ ['"', ';']) : isPlain text = true := by
  obtain ⟨rest, hrest⟩ := hbegins
  obtain ⟨hle, hplain⟩ := hbody.length_le
  have hlength := congrArg (fun l => (utf16 l).length) hrest
  simp only [length_utf16_append] at hlength
  have hnone := length_le_utf16 rest
  have hnil : rest = [] := List.length_eq_zero_iff.1 (by omega)
  rw [hnil, List.append_nil, List.append_left_inj] at hrest
  rw [← hrest]
  exact hplain (by omega)

/-! ## The line of an import -/

/-- What stands before the specifier in the line of an import. -/
def BeforeSpecifier (i : Import) (front : List Char) : Prop :=
  if i.modifier = some .publicly then front = "export * from ".toList
  else ∃ name, Text.isAlias name = true ∧
    front = "import type * as ".toList ++ (name ++ " from ".toList)

theorem not_mem_of_isAlias {name : List Char} {c : Char} (h : Text.isAlias name = true)
    (hc : (c.isLower || c.isDigit || c == '_') = false) : c ∉ name := by
  intro hmem
  cases name with
  | nil => cases h
  | cons d name =>
    obtain ⟨hd, hname⟩ := Bool.and_eq_true_iff.1 h
    rcases List.mem_cons.1 hmem with rfl | hmem
    · simp_all
    · exact absurd (List.all_eq_true.1 hname c hmem) (by simp [hc])

theorem BeforeSpecifier.not_mem {i : Import} {front : List Char} (h : BeforeSpecifier i front) :
    '\n' ∉ front := by
  unfold BeforeSpecifier at h
  split at h
  · rw [h]
    decide
  · obtain ⟨name, hname, rfl⟩ := h
    have := not_mem_of_isAlias (c := '\n') hname (by decide)
    simp [this]

/-- An alias ends at the first blank, so the specifier begins at one place only. -/
theorem BeforeSpecifier.cancel {i : Import} {front front' rest rest' : List Char}
    (h : BeforeSpecifier i front) (h' : BeforeSpecifier i front')
    (hbegins : front ++ rest <+: front' ++ rest') : rest <+: rest' := by
  unfold BeforeSpecifier at h h'
  split at h
  · rw [if_pos ‹_›] at h'
    rw [h, h'] at hbegins
    exact (List.prefix_append_right_inj _).1 hbegins
  · rw [if_neg ‹_›] at h'
    obtain ⟨name, hname, rfl⟩ := h
    obtain ⟨name', hname', rfl⟩ := h'
    simp only [List.append_assoc, List.prefix_append_right_inj] at hbegins
    obtain ⟨more, hmore⟩ := hbegins
    have hblank := not_mem_of_isAlias (c := ' ') hname (by decide)
    have hblank' := not_mem_of_isAlias (c := ' ') hname' (by decide)
    have hsegments : segments ' ' (name ++ ' ' :: ("from ".toList ++ (rest ++ more))) =
        segments ' ' (name' ++ ' ' :: ("from ".toList ++ rest')) := by
      simpa using congrArg (segments ' ') hmore
    rw [segments_append_cons _ hblank, segments_append_cons _ hblank'] at hsegments
    rw [(List.cons.inj hsegments).1, List.append_assoc, List.append_assoc] at hmore
    exact ⟨more, List.append_cancel_left (List.append_cancel_left hmore)⟩

section
variable {imports : List Import} {k : Nat} {i : Import}

theorem importLine_none (resolve : String → String) (i : Import) :
    importLine resolve i none = "export * from " ++ ("\"" ++ resolve i.path.value ++ "\";") :=
  rfl

theorem importLine_some (resolve : String → String) (i : Import) (name : String) :
    importLine resolve i (some name) =
      "import type * as " ++ name ++ " from " ++ ("\"" ++ resolve i.path.value ++ "\";") :=
  rfl

/-- The line of an import has the resolved path in it as it is. -/
theorem importLines_specifier (resolve : String → String) (hk : imports[k]? = some i) :
    ∃ front, BeforeSpecifier i front ∧
      ((importLines resolve imports).map String.toList)[k]? =
        some (front ++ '"' :: ((resolve i.path.value).toList ++ ['"', ';'])) := by
  by_cases hi : i.modifier = some .publicly
  · have hfront : BeforeSpecifier i "export * from ".toList := by
      rw [BeforeSpecifier, if_pos hi]
    refine ⟨_, hfront, ?_⟩
    rw [List.getElem?_map, getElem?_importLines hk (aliases_of_public [] hk hi), importLine_none]
    simp
  · obtain ⟨name, hname, hfit⟩ := aliases_of_named [] hk hi
    have hfront : BeforeSpecifier i
        ("import type * as ".toList ++ (name.toList ++ " from ".toList)) := by
      rw [BeforeSpecifier, if_neg hi]
      exact ⟨name.toList, hfit.isAlias, rfl⟩
    refine ⟨_, hfront, ?_⟩
    rw [List.getElem?_map, getElem?_importLines hk hname, importLine_some]
    simp

end

/-- Whether the `k`-th line of the code is the import of the `k`-th path, and names the module that
the path is resolved to. -/
def SpecifiersDenote (imports : List Import) (resolve : String → String) (code : String) : Prop :=
  ∀ (k : Nat) (i : Import), imports[k]? = some i → ∃ front literal, BeforeSpecifier i front ∧
    Denotes literal (resolve i.path.value).toList ∧
      (segments '\n' code.toList)[k]? = some (front ++ (literal ++ [';']))

theorem isPlain_not_mem {text : List Char} (h : isPlain text = true) : '\n' ∉ text := by
  intro hmem
  have := List.all_eq_true.1 h '\n' hmem
  simp at this

/-- The line of an import, where every path before it is resolved to a plain text. -/
theorem getElem?_lines_generate {f : File} {o : Options} {k : Nat} {i : Import}
    (hk : f.imports[k]? = some i)
    (hplain : ∀ j < k, ∀ i ∈ f.imports[j]?, isPlain (o.resolve i.path.value).toList = true) :
    ∃ front segment, BeforeSpecifier i front ∧
      (segments '\n' (generate f o).toList)[k]? = some segment ∧
      segment <+: front ++ '"' :: ((o.resolve i.path.value).toList ++ ['"', ';']) ∧
      (isPlain (o.resolve i.path.value).toList = true →
        segment = front ++ '"' :: ((o.resolve i.path.value).toList ++ ['"', ';'])) := by
  obtain ⟨rest, hcode⟩ := generate_eq_importLines_append f o
  obtain ⟨front, hfront, hline⟩ := importLines_specifier o.resolve hk
  have hbefore : ∀ j < k, ∀ l ∈ ((importLines o.resolve f.imports).map String.toList)[j]?,
      '\n' ∉ l := by
    intro j hj l hl
    have hlt : j < f.imports.length := hj.trans (List.getElem?_eq_some_iff.1 hk).1
    have hjmem := List.getElem?_eq_getElem hlt
    obtain ⟨front', hfront', hline'⟩ := importLines_specifier o.resolve hjmem
    rw [Option.mem_def, hline', Option.some_inj] at hl
    rw [← hl]
    have htarget := isPlain_not_mem (hplain j hj _ hjmem)
    simp [hfront'.not_mem, htarget]
  obtain ⟨segment, hsegment, hbegins, hwhole⟩ := segments_lines rest.toList hline hbefore
  have htext : (generate f o).toList =
      (((importLines o.resolve f.imports).map String.toList).map (· ++ ['\n'])).flatten ++
        rest.toList := by
    rw [hcode, String.toList_append, String.toList_join, List.flatMap_map, List.map_map]
    simp [List.flatMap, Function.comp_def]
  rw [htext]
  refine ⟨front, segment, hfront, hsegment, hbegins, fun htarget => hwhole ?_⟩
  simp [hfront.not_mem, isPlain_not_mem htarget]

theorem specifiersDenote_generate_iff (f : File) (o : Options) :
    SpecifiersDenote f.imports o.resolve (generate f o) ↔
      ∀ i ∈ f.imports, isPlain (o.resolve i.path.value).toList = true := by
  constructor
  · intro h
    have hplain (k : Nat) :
        ∀ i ∈ f.imports[k]?, isPlain (o.resolve i.path.value).toList = true := by
      -- The imports before this one are plain, so its line is where it should be.
      induction k using Nat.strongRecOn with
      | ind k ih =>
        intro i hk
        obtain ⟨front, segment, hfront, hsegment, hbegins, -⟩ := getElem?_lines_generate hk ih
        obtain ⟨front', _, hfront', ⟨body, rfl, hbody⟩, hline⟩ := h k i hk
        rw [hsegment, Option.some_inj] at hline
        rw [hline] at hbegins
        have hrest := hfront'.cancel hfront hbegins
        refine isPlain_of_begins hbody ?_
        simpa using hrest
    intro i hi
    obtain ⟨k, hk⟩ := List.mem_iff_getElem?.1 hi
    exact hplain k i hk
  · intro h k i hk
    have hbefore : ∀ j < k, ∀ i ∈ f.imports[j]?, isPlain (o.resolve i.path.value).toList = true :=
      fun j _ i hj => h i (List.mem_of_getElem? hj)
    obtain ⟨front, segment, hfront, hsegment, -, hwhole⟩ := getElem?_lines_generate hk hbefore
    have hplain := h i (List.mem_of_getElem? hk)
    refine ⟨front, _, hfront, ⟨_, rfl, characters_of_isPlain hplain⟩, ?_⟩
    rw [hsegment, hwhole hplain]
    simp

/-! ## From the source to the code -/

theorem code_compile {source : String} {o : Options} (h : (compile source o).errors = []) :
    (compile source o).code = generate (parse (tokenize source).tokens).file o := by
  unfold compile at *
  cases hread : readSchema source with
  | ok file =>
    obtain ⟨-, -, rfl⟩ := readSchema_eq_ok.1 hread
    rfl
  | error errors =>
    rw [hread] at h
    cases h
    unfold readSchema at hread
    dsimp only at hread
    split at hread
    · simp_all
    · split at hread
      · simp_all
      · cases hread

/-- The path of an import stands in the source as a string literal. -/
theorem literal_of_mem_imports {source : String} {i : Import}
    (hi : i ∈ (parse (tokenize source).tokens).file.imports) :
    (Node.text i.path).Literal source := by
  have himports := (told_parse source).owns
    ((parse (tokenize source).tokens).file.imports.map Node.importDecl) (by simp [Node.parts])
  have himport := himports (.importDecl i) (List.mem_map_of_mem hi)
  exact (himport.owns [.text i.path] List.mem_cons_self _ List.mem_cons_self).covered.literal

/-- The specifiers in the code of a source denote what the paths of its imports are resolved to just
where all of these texts are plain.

The path of an import is what its string literal in the source denotes, with its escapes undone, so
any text may be resolved.  The code has it between quotes as it is. -/
theorem specifiers_denote_iff (source : String) (o : Options) (h : (compile source o).errors = []) :
    let imports := (parse (tokenize source).tokens).file.imports
    (∀ i ∈ imports, (Node.text i.path).Literal source) ∧
      (SpecifiersDenote imports o.resolve (compile source o).code ↔
        ∀ i ∈ imports, isPlain (o.resolve i.path.value).toList = true) := by
  intro imports
  refine ⟨fun i hi => literal_of_mem_imports hi, ?_⟩
  rw [code_compile h]
  exact specifiersDenote_generate_iff _ o

/-- Two imports, one of which is passed on, from a directory. -/
theorem specifiers_denote_iff_directory :
    let source := "import \"a\\tb.proto\"; import public \"c\";"
    let o : Options := { resolve := fun path => "./" ++ path }
    (compile source o).errors = [] ∧
      SpecifiersDenote (parse (tokenize source).tokens).file.imports o.resolve
        (compile source o).code := by
  intro source o
  have hnil : (compile source o).errors = [] := by decide +kernel
  exact ⟨hnil, (specifiers_denote_iff source o hnil).2.2 (by decide +kernel)⟩

/-- A quote that is escaped in the source is not in the code. -/
theorem quoted_path_not_denoted :
    let source := "import \"a\\\"b\";"
    (compile source {}).errors = [] ∧
      (compile source {}).code = "import type * as a_b from \"a\"b\";\n" ∧
      ¬SpecifiersDenote (parse (tokenize source).tokens).file.imports id
        (compile source {}).code := by
  intro source
  have hnil : (compile source {}).errors = [] := by decide +kernel
  refine ⟨hnil, by decide +kernel, ?_⟩
  rw [code_compile hnil, specifiersDenote_generate_iff _ {}]
  decide +kernel

end TypeScript

end ProtoDecl
