import ProtoDecl.Proofs.Diagnostics.Points
import ProtoDecl.Report

/-!
# What reports draw

A report quotes the line that a diagnostic points into, and marks the place under it.  The line is
found by its number in the list of lines, the mark by the column, and both agree with the place that
the diagnostic points to.

* `Text.lines_getElem?`: the line that a place lies in, found by counting the line breaks before it;
* `markOf_eq` and `markOf_append`: where the mark is drawn, and how wide it is;
* `heading` and `quotation` are the parts of a report, character by character;
* `Draws` says how a report looks, given the place, and `compile_located` that all diagnostics point
  to places that their reports show in this way.
-/

namespace ProtoDecl

namespace Text

/-! ## Lines -/

/-- A carriage return that is not followed by a line break belongs to its line, as any other
character. -/
def Inline (c : Char) (rest : List Char) : Prop :=
  c ≠ '\n' ∧ (c = '\r' → rest.head? ≠ some '\n')

theorem lines_cons {c : Char} {rest : List Char} (h : Inline c rest) :
    lines (c :: rest) = (c :: (lines rest).headD []) :: (lines rest).tail := by
  rw [lines, if_neg h.1]
  · cases lines rest <;> rfl
  · rintro tail rfl rfl
    exact h.2 rfl rfl

/-- Texts are built from line endings and characters within lines. -/
theorem line_induction {P : List Char → Prop} (nil : P [])
    (lineFeed : ∀ rest, P rest → P ('\n' :: rest))
    (carriageReturn : ∀ rest, P rest → P ('\r' :: '\n' :: rest))
    (inline : ∀ c rest, Inline c rest → P rest → P (c :: rest)) : ∀ text, P text := by
  intro text
  fun_induction lines text with
  | case1 => exact nil
  | case2 rest ih => exact carriageReturn rest ih
  | case3 rest _ ih => exact lineFeed rest ih
  | case4 c rest hreturn hc _ ih | case5 c rest hreturn hc _ _ _ ih =>
    refine inline c rest ⟨hc, ?_⟩ ih
    intro hcr hhead
    obtain ⟨tail, htail⟩ := List.head?_eq_some_iff.1 hhead
    exact hreturn tail hcr htail

/-- The rest of a line: what stands before the next line break, without a carriage return that
belongs to it. -/
def restOfLine (text : List Char) : List Char :=
  let run := text.takeWhile (· != '\n')
  if run.length < text.length ∧ run.getLast? = some '\r' then run.dropLast else run

theorem restOfLine_cons {c : Char} {rest : List Char} (h : Inline c rest) :
    restOfLine (c :: rest) = c :: restOfLine rest := by
  have hrun : (c :: rest).takeWhile (· != '\n') = c :: rest.takeWhile (· != '\n') := by
    simp [h.1]
  unfold restOfLine
  simp only [hrun]
  cases hrest : rest.takeWhile (· != '\n') with
  | nil =>
    by_cases hreturn : c = '\r'
    · -- Nothing at all follows such a carriage return.
      have hnil : rest = [] := by
        cases rest with
        | nil => rfl
        | cons d tail =>
          have hd : d = '\n' := by
            by_contra hd
            simp [hd] at hrest
          exact absurd (congrArg some hd) (h.2 hreturn)
      simp [hnil]
    · simp [hreturn]
  | cons d run =>
    simp only [List.getLast?_cons_cons, List.dropLast_cons_cons, List.length_cons,
      Nat.add_lt_add_iff_right]
    split <;> rfl

/-- The rest of a line, taken up further back.  A carriage return stays in the line unless the line
break follows it. -/
theorem restOfLine_append {line after : List Char} (hline : '\n' ∉ line)
    (hafter : after.head? = some '\n' → line.getLast? ≠ some '\r') :
    restOfLine (line ++ after) = line ++ restOfLine after := by
  induction line with
  | nil => rfl
  | cons c line ih =>
    rw [List.mem_cons, not_or] at hline
    have hinline : Inline c (line ++ after) := by
      refine ⟨Ne.symm hline.1, fun hreturn hhead => ?_⟩
      cases line with
      | nil => exact hafter hhead (congrArg some hreturn)
      | cons d line =>
        have hd : d = '\n' := Option.some.inj hhead
        exact hline.2 (hd ▸ List.mem_cons_self)
    have hrest : after.head? = some '\n' → line.getLast? ≠ some '\r' := by
      intro hbreak
      cases line with
      | nil => exact nofun
      | cons d line => exact hafter hbreak
    rw [List.cons_append, restOfLine_cons hinline, ih hline.2 hrest, List.cons_append]

theorem head?_lines (text : List Char) :
    (lines text).head? = if text = [] then none else some (restOfLine text) := by
  induction text using line_induction with
  | nil => rfl
  | lineFeed rest ih => simp [lines, restOfLine]
  | carriageReturn rest ih => simp [lines, restOfLine]
  | inline c rest h ih =>
    rw [lines_cons h, restOfLine_cons h, List.headD_eq_head?_getD, ih]
    by_cases hrest : rest = []
    · simp [hrest, restOfLine]
    · simp [hrest]

/-- A line break ends one line more than there are line breaks before it. -/
theorem lines_append_break (text rest : List Char) :
    ∃ front, lines (text ++ '\n' :: rest) = front ++ lines rest ∧
      front.length = text.count '\n' + 1 := by
  induction text using line_induction with
  | nil => exact ⟨[[]], by simp [lines], rfl⟩
  | lineFeed text ih =>
    obtain ⟨front, hlines, hlength⟩ := ih
    exact ⟨[] :: front, by simp [lines, hlines], by simp [hlength]⟩
  | carriageReturn text ih =>
    obtain ⟨front, hlines, hlength⟩ := ih
    exact ⟨[] :: front, by simp [lines, hlines], by simp [hlength]⟩
  | inline c text h ih =>
    by_cases hreturn : c = '\r' ∧ text = []
    · -- Together with the line break, it is a line ending.
      obtain ⟨rfl, rfl⟩ := hreturn
      exact ⟨[[]], by simp [lines], rfl⟩
    · obtain ⟨front, hlines, hlength⟩ := ih
      have hinline : Inline c (text ++ '\n' :: rest) := by
        refine ⟨h.1, fun hc => ?_⟩
        cases text with
        | nil => exact absurd ⟨hc, rfl⟩ hreturn
        | cons d text => exact h.2 hc
      cases front with
      | nil => simp at hlength
      | cons line front =>
        refine ⟨(c :: line) :: front, ?_, ?_⟩
        · rw [List.cons_append, lines_cons hinline, hlines]
          rfl
        · rw [List.count_cons_of_ne h.1, ← hlength]
          rfl

/-! ## The line of a place -/

theorem break_not_mem_afterLast (text : List Char) : '\n' ∉ afterLast (· == '\n') text := by
  intro h
  have hne := List.mem_takeWhile_imp (List.mem_reverse.1 h)
  simp at hne

theorem eq_append_afterLast {text : List Char} (h : '\n' ∈ text) :
    ∃ earlier, text = earlier ++ '\n' :: afterLast (· == '\n') text := by
  induction text using List.reverseRecOn with
  | nil => exact absurd h List.not_mem_nil
  | append_singleton text c ih =>
    rw [Place.afterLast_concat]
    by_cases hc : c = '\n'
    · exact ⟨text, by rw [if_pos hc, hc]⟩
    · have hmem : '\n' ∈ text := by
        rcases List.mem_append.1 h with h | h
        · exact h
        · exact absurd (List.mem_singleton.1 h).symm hc
      obtain ⟨earlier, hearlier⟩ := ih hmem
      refine ⟨earlier, ?_⟩
      rw [if_neg hc, ← List.cons_append, ← List.append_assoc, ← hearlier]

theorem afterLast_of_not_mem {text : List Char} (h : '\n' ∉ text) :
    afterLast (· == '\n') text = text := by
  have hall : ∀ c ∈ text.reverse, (!(c == '\n')) = true := by
    intro c hc
    simpa using ne_of_mem_of_not_mem (List.mem_reverse.1 hc) h
  rw [afterLast, List.takeWhile_eq_self_iff.2 hall, List.reverse_reverse]

/-- The line of a place between two parts of a text: the end of the first part, and the beginning of
the second.  At the end of a text that is empty or ends with a line break, there is none. -/
theorem lines_getElem? (before : List Char) {after : List Char}
    (hafter : after.head? ≠ some '\n') :
    (lines (before ++ after))[before.count '\n']? =
      if afterLast (· == '\n') before = [] ∧ after = [] then none
      else some (afterLast (· == '\n') before ++ restOfLine after) := by
  have hline := restOfLine_append (break_not_mem_afterLast before)
    fun hbreak => absurd hbreak hafter
  have hhead := head?_lines (afterLast (· == '\n') before ++ after)
  simp only [hline, List.append_eq_nil_iff] at hhead
  rw [← hhead, List.head?_eq_getElem?]
  by_cases h : '\n' ∈ before
  · obtain ⟨earlier, hearlier⟩ := eq_append_afterLast h
    obtain ⟨front, hfront, hlength⟩ :=
      lines_append_break earlier (afterLast (· == '\n') before ++ after)
    have hcount : before.count '\n' = front.length := by
      have hlast := List.count_eq_zero.2 (break_not_mem_afterLast before)
      rw [hearlier, List.count_append, List.count_cons_self, hlength]
      omega
    have htext : before ++ after = earlier ++ '\n' :: (afterLast (· == '\n') before ++ after) := by
      conv => lhs; rw [hearlier]
      simp
    rw [htext, hfront, hcount, List.getElem?_append_right (Nat.le_refl _), Nat.sub_self]
  · rw [afterLast_of_not_mem h, List.count_eq_zero.2 h]

/-- Nothing follows the last line break exactly if a text is empty or ends with one. -/
theorem afterLast_eq_nil_iff {text : List Char} :
    afterLast (· == '\n') text = [] ↔ text = [] ∨ text.getLast? = some '\n' := by
  cases text using List.reverseRecOn with
  | nil => simp [afterLast]
  | append_singleton text c =>
    rw [Place.afterLast_concat]
    by_cases hc : c = '\n'
    · simp [hc]
    · simp [hc]

end Text

namespace Report

open Text (afterLast restOfLine lines_getElem? afterLast_eq_nil_iff isBlank)

/-! ## The mark -/

/-- How many columns a text takes: four for a tab, and one for any other character. -/
def columns : List Char → Nat
  | [] => 0
  | c :: rest => (if c = '\t' then 4 else 1) + columns rest

theorem columns_append (a b : List Char) : columns (a ++ b) = columns a + columns b := by
  induction a with
  | nil => simp [columns]
  | cons c a ih => rw [List.cons_append, columns, columns, ih, Nat.add_assoc]

theorem length_le_columns (text : List Char) : text.length ≤ columns text := by
  induction text with
  | nil => exact Nat.le_refl _
  | cons c text ih =>
    rw [List.length_cons, columns]
    split <;> omega

theorem textWidth_eq_columns (text : List Char) : textWidth text = columns text := by
  induction text with
  | nil => rfl
  | cons c text ih => rw [textWidth, ih, width, columns]

/-- The mark begins behind the first part of the line, and covers as many characters of the rest as
the span has bytes. -/
theorem markOf_eq (front rest : List Char) (length : Nat) :
    markOf (front ++ rest) (1 + front.length) length =
      (columns front, max (min length rest.length) 1) := by
  rw [← textWidth_eq_columns]
  unfold markOf
  simp

/-- The mark has a width, and reaches out of the line only if nothing is left of that. -/
theorem markOf_append (front rest : List Char) (length : Nat) :
    ∃ carets, markOf (front ++ rest) (1 + front.length) length = (columns front, carets) ∧
      1 ≤ carets ∧
      (columns front + carets ≤ columns (front ++ rest) ∨ rest = [] ∧ carets = 1) := by
  refine ⟨_, markOf_eq front rest length, Nat.le_max_right _ _, ?_⟩
  cases rest with
  | nil => exact .inr ⟨rfl, by simp⟩
  | cons c rest =>
    have hwidth := length_le_columns (c :: rest)
    have hone : 1 ≤ (c :: rest).length := by simp
    rw [columns_append]
    exact .inl (by omega)

/-! ## Reports -/

/-- The lines of a report that name the fault and its place. -/
def heading (paint : Paint) (fileName : String) (d : Diagnostic) : String :=
  let number := toString d.span.line
  paint.red "error" ++ ": " ++ paint.bold d.message ++ "\n"
    ++ String.ofList (List.replicate number.length ' ') ++ paint.blue "-->" ++ " "
    ++ fileName ++ ":" ++ number ++ ":" ++ toString d.span.column ++ "\n"

/-- The lines of a report that show a line of source text, with tabs as four blanks, and carets
under it, behind as many blanks as `offset` says. -/
def quotation (paint : Paint) (d : Diagnostic) (line : List Char) (offset carets : Nat) : String :=
  let number := toString d.span.line
  let gutter := String.ofList (List.replicate number.length ' ')
  let shown := line.flatMap fun c => if c = '\t' then List.replicate 4 ' ' else [c]
  let label := if d.expected.isEmpty then ""
    else "expected " ++ " or ".intercalate (d.expected.map Kind.describe)
  gutter ++ " " ++ paint.blue "|" ++ "\n"
    ++ paint.blue number ++ " " ++ paint.blue "|" ++ " " ++ String.ofList shown ++ "\n"
    ++ gutter ++ " " ++ paint.blue "|" ++ " "
    ++ paint.red (String.ofList (List.replicate offset ' ' ++ List.replicate carets '^')) ++ " "
    ++ paint.red label ++ "\n"

theorem repeated_eq (n : Nat) (c : Char) : repeated n c = String.ofList (List.replicate n c) :=
  rfl

theorem expandTabs_eq (line : List Char) :
    expandTabs line = line.flatMap fun c => if c = '\t' then List.replicate 4 ' ' else [c] :=
  rfl

theorem format_of_none {paint : Paint} {source fileName : String} {d : Diagnostic}
    (h : quotedLine source d = none) :
    format paint source fileName d = heading paint fileName d := by
  unfold format heading
  rw [h]
  simp only [repeated_eq, Span.place, String.append_assoc]

theorem format_of_some {paint : Paint} {source fileName : String} {d : Diagnostic}
    {line : List Char} (h : quotedLine source d = some line) :
    let mark := markOf line d.span.column d.span.length
    format paint source fileName d =
      heading paint fileName d ++ quotation paint d line mark.1 mark.2 := by
  unfold format heading quotation
  rw [h]
  simp only [repeated_eq, expandTabs_eq, Span.place, hint, String.append_assoc,
    String.ofList_append]

theorem quotation_ne_empty (paint : Paint) (d : Diagnostic) (line : List Char)
    (offset carets : Nat) : quotation paint d line offset carets ≠ "" := by
  intro h
  unfold quotation at h
  have hempty := String.append_eq_empty_iff.1 h
  exact absurd hempty.2 (by decide)

/-- A diagnostic points to the end of a source that has no line there. -/
def Beyond (source : String) (d : Diagnostic) : Prop :=
  d.span.start = source.utf8ByteSize ∧ (source = "" ∨ source.toList.getLast? = some '\n')

/-- How the report of a diagnostic looks that points between two parts of a source. -/
structure Draws (paint : Paint) (source fileName : String) (d : Diagnostic)
    (before after : List Char) : Prop where
  /-- Nothing is shown where the source has no line. -/
  absent : format paint source fileName d = heading paint fileName d ↔ Beyond source d
  /-- Elsewhere, the line is shown, and the first caret stands under the character that follows the
  place.  There are carets, and none beyond the line if it goes on there. -/
  shown : ¬ Beyond source d →
    let front := afterLast (· == '\n') before
    let line := front ++ restOfLine after
    ∃ carets,
      format paint source fileName d =
        heading paint fileName d ++ quotation paint d line (columns front) carets ∧
      1 ≤ carets ∧
      (columns front + carets ≤ columns line ∨ restOfLine after = [] ∧ carets = 1)

variable {source : String} {d : Diagnostic} {before after : List Char}

theorem beyond_iff (h : Points source d.span before after) :
    Beyond source d ↔ afterLast (· == '\n') before = [] ∧ after = [] := by
  have hend : d.span.start = source.utf8ByteSize ↔ after = [] := by
    rw [h.start, ← bytes_toList, h.split, bytes_append]
    constructor
    · intro hbytes
      by_contra hne
      have hpos := bytes_pos hne
      omega
    · intro hnil
      rw [hnil, bytes_nil, Nat.add_zero]
  unfold Beyond
  rw [hend, afterLast_eq_nil_iff, and_comm]
  refine and_congr_left fun hnil => ?_
  have hsource : source.toList = before := by rw [h.split, hnil, List.append_nil]
  rw [hsource, ← hsource, String.toList_eq_nil_iff]

theorem quotedLine_eq (h : Points source d.span before after) (hvisible : Visible after) :
    quotedLine source d =
      if afterLast (· == '\n') before = [] ∧ after = [] then none
      else some (afterLast (· == '\n') before ++ restOfLine after) := by
  have hafter : after.head? ≠ some '\n' := by
    intro hbreak
    exact absurd (hvisible '\n' hbreak) (by decide)
  rw [quotedLine, h.split, h.line, Nat.add_sub_cancel_left]
  exact lines_getElem? before hafter

theorem draws_of_points (h : Points source d.span before after) (hvisible : Visible after)
    (paint : Paint) (fileName : String) : Draws paint source fileName d before after := by
  have hquoted := quotedLine_eq h hvisible
  by_cases hbeyond : Beyond source d
  · rw [if_pos ((beyond_iff h).1 hbeyond)] at hquoted
    exact ⟨⟨fun _ => hbeyond, fun _ => format_of_none hquoted⟩, fun hnot => absurd hbeyond hnot⟩
  · rw [if_neg (mt (beyond_iff h).2 hbeyond)] at hquoted
    obtain ⟨carets, hmark, hpos, hinside⟩ := markOf_append (afterLast (· == '\n') before)
      (restOfLine after) d.span.length
    have hformat := @format_of_some paint source fileName d _ hquoted
    rw [h.column, hmark] at hformat
    refine ⟨⟨fun heq => ?_, fun hnot => absurd hnot hbeyond⟩, fun _ => ?_⟩
    · have hlist := congrArg String.toList (hformat.symm.trans heq)
      rw [String.toList_append, List.append_right_eq_self, String.toList_eq_nil_iff] at hlist
      exact absurd hlist (quotation_ne_empty _ _ _ _ _)
    · exact ⟨carets, hformat, hpos, hinside⟩

end Report

/-- Every diagnostic points to the right place in its source, and its report shows that place. -/
theorem compile_located (source : String) (options : TypeScript.Options) :
    ∀ d ∈ (compile source options).errors, ∃ before after, Points source d.span before after ∧
      ∀ paint fileName, Report.Draws paint source fileName d before after := by
  intro d hd
  obtain ⟨before, after, hpoints, hvisible⟩ := compile_points hd
  exact ⟨before, after, hpoints, Report.draws_of_points hpoints hvisible⟩

/-- A line that begins with a tab and ends with a carriage return. -/
theorem compile_located_tab :
    let source := "package p;\r\n\tpackage ;\r\n"
    ∃ d ∈ (compile source {}).errors, d.span = ⟨2, 10, 21, 22⟩ ∧
      Report.format .plain source "p.proto" d =
        "error: Expected package name, found ';'\n --> p.proto:2:10\n  |\n2 |     package ;\n" ++
          "  |             ^ expected identifier\n" ∧
      ∃ before after, Points source d.span before after ∧
        ∀ paint fileName, Report.Draws paint source fileName d before after := by
  intro source
  have hany : (compile source {}).errors.any (fun d => d.span = ⟨2, 10, 21, 22⟩ ∧
      Report.format .plain source "p.proto" d =
        "error: Expected package name, found ';'\n --> p.proto:2:10\n  |\n2 |     package ;\n" ++
          "  |             ^ expected identifier\n") = true := by
    decide +kernel
  obtain ⟨d, hd, hfacts⟩ := List.any_eq_true.1 hany
  obtain ⟨hspan, hformat⟩ := of_decide_eq_true hfacts
  exact ⟨d, hd, hspan, hformat, compile_located source {} d hd⟩

end ProtoDecl
