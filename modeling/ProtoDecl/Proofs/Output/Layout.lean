import ProtoDecl.Proofs.Output.Blocks

/-!
# The layout of the output

What follows from the output being laid out in blocks.

* While a block is written, the stack of scopes is in step with the depth, and only scopes are left
  that were entered (`inStep_take`).
* A block is made of the same lines at every depth, up to the blanks before them (`Block.isLines`).
* Neither the first nor the last line of the output is blank (`framed_fileBlocks`).

`generate_layout` puts these together.
-/

namespace ProtoDecl.TypeScript

open Schema Writer

/-! ## Scopes -/

/-- The depth after a call. -/
def Call.depthAfter (d : Nat) : Call → Nat
  | enter _ => d + 1
  | leave => d - 1
  | _ => d

/-- Whether the stack of scopes is in step with the depth. -/
def Writer.InStep (w : Writer) : Prop :=
  w.started.length = w.depth + 1

theorem Call.depth_run (w : Writer) (c : Call) : (c.run w).depth = c.depthAfter w.depth := by
  cases c with
  | begin =>
    change w.beginDeclaration.depth = w.depth
    unfold beginDeclaration
    split <;> rfl
  | line text => rfl
  | enter header => rfl
  | leave => rfl

/-- Every call keeps the stack in step, also if it is made at the wrong time. -/
theorem Call.inStep_run {w : Writer} (h : w.InStep) (c : Call) : (c.run w).InStep := by
  unfold InStep at *
  cases c with
  | begin =>
    change w.beginDeclaration.started.length = w.beginDeclaration.depth + 1
    unfold beginDeclaration
    split
    · exact h
    · rename_i hstarted
      rw [hstarted] at h
      exact h
  | line text => exact h
  | enter header => exact congrArg (· + 1) h
  | leave =>
    change (if w.started.length > 1 then w.started.tail else w.started).length = w.depth - 1 + 1
    split
    · rw [List.length_tail]
      omega
    · omega

theorem inStep_empty (n : Nat) : (Writer.empty n).InStep :=
  rfl

theorem inStep_foldl {w : Writer} (h : w.InStep) (calls : List Call) :
    (calls.foldl Call.run w).InStep := by
  induction calls generalizing w with
  | nil => exact h
  | cons c calls ih => exact ih (c.inStep_run h)

theorem depth_foldl (w : Writer) (calls : List Call) :
    (calls.foldl Call.run w).depth = calls.foldl Call.depthAfter w.depth := by
  induction calls generalizing w with
  | nil => rfl
  | cons c calls ih => rw [List.foldl_cons, ih, c.depth_run, List.foldl_cons]

/-- Whether some calls, made at depth `d`, leave no scope at the depth `floor` or above it. -/
def Guarded (floor d : Nat) : List Call → Prop
  | [] => True
  | c :: rest => (c = .leave → floor < d) ∧ Guarded floor (c.depthAfter d) rest

theorem guarded_append {floor d : Nat} {a b : List Call} :
    Guarded floor d (a ++ b) ↔
      Guarded floor d a ∧ Guarded floor (a.foldl Call.depthAfter d) b := by
  induction a generalizing d with
  | nil => simp [Guarded]
  | cons c a ih => rw [List.cons_append, Guarded, ih, Guarded, List.foldl_cons, and_assoc]

theorem Guarded.mono {floor floor' d : Nat} {calls : List Call} (hle : floor' ≤ floor)
    (h : Guarded floor d calls) : Guarded floor' d calls := by
  induction calls generalizing d with
  | nil => trivial
  | cons c calls ih => exact ⟨fun hc => Nat.lt_of_le_of_lt hle (h.1 hc), ih h.2⟩

/-- Whether some calls, made at a depth, leave only scopes that they entered, and all of them. -/
structure Level (d : Nat) (calls : List Call) : Prop where
  guarded : Guarded d d calls
  back : calls.foldl Call.depthAfter d = d

section Level

variable {d : Nat} {a b calls : List Call}

theorem level_append (ha : Level d a) (hb : Level d b) : Level d (a ++ b) where
  guarded := guarded_append.2 ⟨ha.guarded, ha.back.symm ▸ hb.guarded⟩
  back := by rw [List.foldl_append, ha.back, hb.back]

theorem level_begin (h : Level d calls) : Level d (.begin :: calls) where
  guarded := ⟨(fun hc => nomatch hc), h.guarded⟩
  back := h.back

theorem level_lines (texts : List String) : Level d (texts.map Call.line) := by
  induction texts with
  | nil => exact ⟨trivial, rfl⟩
  | cons text texts ih => exact ⟨⟨(fun hc => nomatch hc), ih.guarded⟩, ih.back⟩

/-- What goes on inside a scope goes on one level deeper. -/
theorem level_scope (h : Level (d + 1) calls) (header : String) :
    Level d (.enter header :: calls ++ [.leave]) where
  guarded := by
    have hinner : Guarded d (d + 1) calls := h.guarded.mono (Nat.le_succ d)
    have hleave : Guarded d (d + 1) [.leave] := ⟨fun _ => Nat.lt_succ_self d, trivial⟩
    exact ⟨(fun hc => nomatch hc), guarded_append.2 ⟨hinner, h.back.symm ▸ hleave⟩⟩
  back := by
    rw [List.cons_append, List.foldl_cons, List.foldl_append]
    change calls.foldl Call.depthAfter (d + 1) - 1 = d
    rw [h.back, Nat.add_sub_cancel]

theorem level_flatMap {bs : List Block} (h : ∀ b ∈ bs, Level d b.calls) :
    Level d (bs.flatMap Block.calls) := by
  induction bs with
  | nil => exact ⟨trivial, rfl⟩
  | cons b bs ih =>
    exact level_append (h b List.mem_cons_self) (ih fun b' hb' => h b' (List.mem_cons_of_mem _ hb'))

/-- A block leaves only scopes that it entered, and all of them. -/
theorem Block.level_calls (b : Block) : Level d b.calls := by
  induction b using Block.induction generalizing d with
  | lines first rest =>
    rw [Block.calls]
    exact level_begin (level_lines _)
  | scope header texts =>
    rw [Block.calls]
    split
    · exact level_begin (level_lines [_])
    · exact level_begin (level_scope (level_lines texts) header)
  | space header inner ih =>
    rw [Block.calls, callsAll_eq]
    exact level_begin (level_scope (level_flatMap fun b hb => ih b hb) header)

end Level

/-- After any number of calls, the stack is in step with the depth; and no scope is left where none is
open. -/
theorem inStep_take (n : Nat) (bs : List Block) (k : Nat) :
    let calls := bs.flatMap Block.calls
    let w := (calls.take k).foldl Call.run (Writer.empty n)
    w.started.length = w.depth + 1 ∧ (calls[k]? = some .leave → 0 < w.depth) := by
  intro calls w
  have hlevel : Level 0 calls := level_flatMap fun b _ => b.level_calls
  refine ⟨inStep_foldl (inStep_empty n) (calls.take k), fun hleave => ?_⟩
  obtain ⟨hk, hget⟩ := List.getElem?_eq_some_iff.1 hleave
  have hsplit : calls = calls.take k ++ .leave :: calls.drop (k + 1) := by
    rw [← hget, ← List.drop_eq_getElem_cons hk, List.take_append_drop]
  have hguarded := hlevel.guarded
  rw [hsplit, guarded_append] at hguarded
  change 0 < ((calls.take k).foldl Call.run (Writer.empty n)).depth
  rw [depth_foldl]
  exact hguarded.2.1 rfl

/-! ## Lines -/

/-- A line at a depth that has a text, or is empty. -/
def rowAt (n d : Nat) : Option String → String
  | some text => lineAt n d text
  | none => "\n"

/-- A text with the blanks of one level before it. -/
def indented (n : Nat) (text : String) : String :=
  String.ofList (List.replicate n ' ') ++ text

theorem lineAt_succ (n d : Nat) (text : String) :
    lineAt n (d + 1) text = lineAt n d (indented n text) := by
  rw [lineAt, lineAt, indented, Nat.succ_mul, ← List.replicate_append_replicate,
    String.ofList_append]
  simp only [String.append_assoc]

/-- A line one level deeper is the same line with the blanks of one level in its text. -/
theorem rowAt_succ (n d : Nat) (row : Option String) :
    rowAt n (d + 1) row = rowAt n d (row.map (indented n)) := by
  cases row with
  | none => rfl
  | some text => exact lineAt_succ n d text

/-- Whether a block is made of lines, the same ones at every depth: what changes with the depth is
only how many blanks stand before those that have a text. -/
def Block.IsLines (n : Nat) (b : Block) : Prop :=
  ∃ rows : List (Option String), rows ≠ [] ∧ ∀ d, b.render n d = String.join (rows.map (rowAt n d))

theorem linesAt_eq_join_rows (n d : Nat) (texts : List String) :
    linesAt n d texts = String.join ((texts.map some).map (rowAt n d)) := by
  rw [linesAt, List.map_map]
  rfl

theorem join_rows_succ (n d : Nat) (rows : List (Option String)) :
    String.join (rows.map (rowAt n (d + 1))) =
      String.join ((rows.map (Option.map (indented n))).map (rowAt n d)) := by
  rw [List.map_map]
  exact congrArg String.join (List.map_congr_left fun row _ => rowAt_succ n d row)

/-- Blocks joined by an empty line are lines again. -/
theorem exists_rows_intercalate {n : Nat} {bs : List Block} (h : ∀ b ∈ bs, b.IsLines n) :
    ∃ rows : List (Option String), ∀ d,
      "\n".intercalate (bs.map (Block.render n d)) = String.join (rows.map (rowAt n d)) := by
  induction bs with
  | nil => exact ⟨[], fun d => rfl⟩
  | cons b bs ih =>
    obtain ⟨rows, -, hrows⟩ := h b List.mem_cons_self
    obtain ⟨rows', hrows'⟩ := ih fun b' hb' => h b' (List.mem_cons_of_mem _ hb')
    by_cases hbs : bs = []
    · refine ⟨rows, fun d => ?_⟩
      rw [hbs, List.map_singleton, String.intercalate_singleton, hrows]
    · refine ⟨rows ++ none :: rows', fun d => ?_⟩
      rw [List.map_cons, String.intercalate_cons_of_ne_nil (by simpa using hbs), hrows, hrows',
        List.map_append, String.join_append, List.map_cons, String.join_cons, String.append_assoc]
      rfl

/-- Every block is made of lines. -/
theorem Block.isLines (n : Nat) (b : Block) : b.IsLines n := by
  induction b using Block.induction with
  | lines first rest =>
    refine ⟨(first :: rest).map some, by simp, fun d => ?_⟩
    rw [Block.render, linesAt_eq_join_rows]
  | scope header texts =>
    by_cases htexts : texts.isEmpty = true
    · refine ⟨[some (header ++ " \x7b\x7d")], by simp, fun d => ?_⟩
      rw [Block.render, if_pos htexts, List.map_singleton, String.join_cons, String.join_nil,
        String.append_empty]
      rfl
    · refine ⟨some (header ++ " \x7b") ::
        (texts.map some).map (Option.map (indented n)) ++ [some "\x7d"], by simp,
        fun d => ?_⟩
      rw [Block.render, if_neg htexts, linesAt_eq_join_rows, join_rows_succ, List.map_append,
        String.join_append, List.map_cons, String.join_cons, List.map_singleton, String.join_cons,
        String.join_nil, String.append_empty]
      rfl
  | space header inner ih =>
    obtain ⟨rows, hrows⟩ := exists_rows_intercalate ih
    refine ⟨some (header ++ " \x7b") :: rows.map (Option.map (indented n))
      ++ [some "\x7d"], by simp, fun d => ?_⟩
    rw [Block.render, renderAll_eq, hrows, join_rows_succ, List.map_append, String.join_append,
      List.map_cons, String.join_cons, List.map_singleton, String.join_cons, String.join_nil,
      String.append_empty]
    rfl

/-! ## The first and the last line -/

/-- Whether a text begins with something other than white space. -/
def BeginsVisibly (text : String) : Prop :=
  ∃ c rest, text.toList = c :: rest ∧ c.isWhitespace = false

/-- Whether a text ends with a line that is not blank. -/
def EndsVisibly (text : String) : Prop :=
  ∃ front c, text.toList = front ++ [c, '\n'] ∧ c.isWhitespace = false

theorem BeginsVisibly.append {a : String} (h : BeginsVisibly a) (b : String) :
    BeginsVisibly (a ++ b) := by
  obtain ⟨c, rest, htext, hc⟩ := h
  exact ⟨c, rest ++ b.toList, by rw [String.toList_append, htext, List.cons_append], hc⟩

theorem EndsVisibly.append (a : String) {b : String} (h : EndsVisibly b) : EndsVisibly (a ++ b) := by
  obtain ⟨front, c, htext, hc⟩ := h
  exact ⟨a.toList ++ front, c, by rw [String.toList_append, htext, List.append_assoc], hc⟩

theorem beginsVisibly_lineAt {n : Nat} {text : String} (h : BeginsVisibly text) :
    BeginsVisibly (lineAt n 0 text) := by
  rw [lineAt_zero]
  exact h.append "\n"

theorem beginsVisibly_intercalate {texts : List String} (hne : texts ≠ [])
    (h : ∀ text ∈ texts, BeginsVisibly text) : BeginsVisibly ("\n".intercalate texts) := by
  cases texts with
  | nil => exact absurd rfl hne
  | cons text texts =>
    rw [← append_join_eq_intercalate]
    exact (h text List.mem_cons_self).append _

theorem endsVisibly_intercalate {texts : List String} (hne : texts ≠ [])
    (h : ∀ text ∈ texts, EndsVisibly text) : EndsVisibly ("\n".intercalate texts) := by
  induction texts with
  | nil => exact absurd rfl hne
  | cons text texts ih =>
    by_cases hrest : texts = []
    · rw [hrest, String.intercalate_singleton]
      exact h text List.mem_cons_self
    · rw [String.intercalate_cons_of_ne_nil hrest]
      exact (ih hrest fun t ht => h t (List.mem_cons_of_mem _ ht)).append _

/-- Whether neither the first nor the last line of a text is blank. -/
structure Framed (text : String) : Prop where
  begins : BeginsVisibly text
  ends : EndsVisibly text

section Framed

variable {n : Nat}

theorem framed_intercalate {texts : List String} (hne : texts ≠ [])
    (h : ∀ text ∈ texts, Framed text) : Framed ("\n".intercalate texts) :=
  ⟨beginsVisibly_intercalate hne fun text ht => (h text ht).begins,
    endsVisibly_intercalate hne fun text ht => (h text ht).ends⟩

theorem endsVisibly_brace (n d : Nat) (text : String) :
    EndsVisibly (lineAt n d (text ++ "\x7d")) := by
  refine ⟨List.replicate (d * n) ' ' ++ text.toList, '\x7d', ?_, rfl⟩
  simp [lineAt]

theorem endsVisibly_linesAt {n d : Nat} {texts : List String} (hne : texts ≠ [])
    (h : ∀ text ∈ texts, EndsVisibly (text ++ "\n")) : EndsVisibly (linesAt n d texts) := by
  induction texts with
  | nil => exact absurd rfl hne
  | cons text texts ih =>
    rw [linesAt, List.map_cons, String.join_cons]
    by_cases hrest : texts = []
    · rw [hrest, List.map_nil, String.join_nil, String.append_empty, lineAt, String.append_assoc]
      exact (h text List.mem_cons_self).append _
    · exact (ih hrest fun t ht => h t (List.mem_cons_of_mem _ ht)).append _

theorem framed_lines {first : String} {rest : List String}
    (h : ∀ text ∈ first :: rest, BeginsVisibly text ∧ EndsVisibly (text ++ "\n")) :
    Framed ((Block.lines first rest).render n 0) := by
  rw [Block.render]
  refine ⟨?_, endsVisibly_linesAt (List.cons_ne_nil _ _) fun text ht => (h text ht).2⟩
  rw [linesAt, List.map_cons, String.join_cons]
  exact (beginsVisibly_lineAt (h first List.mem_cons_self).1).append _

theorem framed_scope {header : String} (h : BeginsVisibly header) (texts : List String) :
    Framed ((Block.scope header texts).render n 0) := by
  rw [Block.render]
  split
  · have hends := endsVisibly_brace n 0 (header ++ " \x7b")
    rw [String.append_assoc] at hends
    exact ⟨beginsVisibly_lineAt (h.append _), hends⟩
  · have hends := endsVisibly_brace n 0 ""
    exact ⟨((beginsVisibly_lineAt (h.append _)).append _).append _, hends.append _⟩

theorem framed_space {header : String} (h : BeginsVisibly header) (inner : List Block) :
    Framed ((Block.space header inner).render n 0) := by
  have hends := endsVisibly_brace n 0 ""
  rw [Block.render]
  exact ⟨((beginsVisibly_lineAt (h.append _)).append _).append _, hends.append _⟩

theorem visible_importLine (resolve : String → String) (i : Import) (name? : Option String) :
    BeginsVisibly (importLine resolve i name?) ∧ EndsVisibly (importLine resolve i name? ++ "\n") := by
  have hends : EndsVisibly ("\";" ++ "\n") := ⟨['"'], ';', rfl, rfl⟩
  unfold importLine
  cases name? with
  | none =>
    refine ⟨BeginsVisibly.append ⟨'e', _, rfl, rfl⟩ _, ?_⟩
    simp only [String.append_assoc]
    exact ((hends.append _).append _).append _
  | some name =>
    simp only [String.append_assoc]
    exact ⟨BeginsVisibly.append ⟨'i', _, rfl, rfl⟩ _,
      ((((hends.append _).append _).append _).append _).append _⟩

theorem framed_importBlocks (resolve : String → String) (imports : List Import) :
    ∀ b ∈ importBlocks resolve imports, Framed (b.render n 0) := by
  intro b hb
  rw [importBlocks] at hb
  split at hb
  · cases hb
  · rename_i first rest hlines
    rw [List.mem_singleton.1 hb]
    refine framed_lines fun text htext => ?_
    rw [← hlines, importLines] at htext
    obtain ⟨k, hk, rfl⟩ := List.getElem_of_mem htext
    rw [List.getElem_zipWith]
    exact visible_importLine resolve _ _

theorem framed_messageBlocks (m : Message) : ∀ b ∈ messageBlocks m, Framed (b.render n 0) := by
  have hinterface : Framed ((interfaceBlock m).render n 0) :=
    framed_scope (BeginsVisibly.append ⟨'e', _, rfl, rfl⟩ _) _
  rw [messageBlocks_eq]
  refine List.forall_mem_cons.2 ⟨hinterface, ?_⟩
  split
  · refine List.forall_mem_singleton.2 (framed_space (BeginsVisibly.append ⟨'e', _, rfl, rfl⟩ _) _)
  · exact fun _ hb => nomatch hb

theorem framed_fileBlocks (resolve : String → String) (f : File) :
    ∀ b ∈ fileBlocks resolve f, Framed (b.render n 0) := by
  have henum : ∀ e, Framed ((enumBlock e).render n 0) := fun e =>
    framed_scope (BeginsVisibly.append ⟨'e', _, rfl, rfl⟩ _) _
  have hextend : ∀ e, Framed ((extendBlock e).render n 0) := fun e =>
    framed_scope (BeginsVisibly.append ⟨'e', _, rfl, rfl⟩ _) _
  have hservice : ∀ s, Framed ((serviceBlock s).render n 0) := fun s =>
    framed_scope (BeginsVisibly.append ⟨'e', _, rfl, rfl⟩ _) _
  intro b hb
  simp only [fileBlocks, messagesBlocks_eq, List.mem_append, List.mem_map, List.mem_flatMap] at hb
  rcases hb with (((hb | ⟨e, -, rfl⟩) | ⟨m, -, hb⟩) | ⟨e, -, rfl⟩) | ⟨s, -, rfl⟩
  · exact framed_importBlocks resolve f.imports b hb
  · exact henum e
  · exact framed_messageBlocks m b hb
  · exact hextend e
  · exact hservice s

end Framed

theorem importBlocks_eq_nil_iff {resolve : String → String} {imports : List Import} :
    importBlocks resolve imports = [] ↔ imports = [] := by
  refine Iff.trans ?_ (importLines_eq_nil_iff resolve)
  rw [importBlocks]
  split <;> simp [*]

theorem messageBlocks_ne_nil (m : Message) : messageBlocks m ≠ [] := by
  rw [messageBlocks_eq]
  exact List.cons_ne_nil _ _

theorem fileBlocks_eq_nil_iff {resolve : String → String} {f : File} :
    fileBlocks resolve f = [] ↔
      f.imports = [] ∧ f.enums = [] ∧ f.messages = [] ∧ f.extendBlocks = [] ∧ f.services = [] := by
  have hmessages : f.messages.flatMap messageBlocks = [] ↔ f.messages = [] := by
    cases f.messages with
    | nil => simp
    | cons m ms => simp [messageBlocks_ne_nil]
  simp only [fileBlocks, messagesBlocks_eq, List.append_eq_nil_iff, List.map_eq_nil_iff,
    importBlocks_eq_nil_iff, hmessages, and_assoc]

/-- The output is laid out in blocks.

* It is the blocks of the file, in order, at depth zero, joined by one empty line.
* A block is made of lines, the same at every depth but for the blanks before them.
* The output is empty only if the file holds nothing to write; else neither its first nor its last
  line is blank.
* The writer is told to do what the blocks say, call by call.  Before each call its stack of scopes
  is in step with the depth, and it never leaves a scope where none is open. -/
theorem generate_layout (f : File) (o : Options) :
    let blocks := fileBlocks o.resolve f
    let calls := blocks.flatMap Block.calls
    generate f o = "\n".intercalate (blocks.map (Block.render o.indentSize 0)) ∧
    (∀ b : Block, b.IsLines o.indentSize) ∧
    (generate f o = "" ↔
      f.imports = [] ∧ f.enums = [] ∧ f.messages = [] ∧ f.extendBlocks = [] ∧ f.services = []) ∧
    (generate f o ≠ "" → Framed (generate f o)) ∧
    writeFile o f = calls.foldl Call.run (Writer.empty o.indentSize) ∧
    ∀ k,
      let w := (calls.take k).foldl Call.run (Writer.empty o.indentSize)
      w.started.length = w.depth + 1 ∧ (calls[k]? = some .leave → 0 < w.depth) := by
  intro blocks calls
  have heq := generate_eq_intercalate f o
  have hframed : blocks ≠ [] → Framed (generate f o) := by
    intro hne
    rw [heq]
    refine framed_intercalate (by simpa using hne) fun text htext => ?_
    obtain ⟨b, hb, rfl⟩ := List.mem_map.1 htext
    exact framed_fileBlocks o.resolve f b hb
  have hempty : generate f o = "" ↔ blocks = [] := by
    refine ⟨fun h => ?_, fun h => ?_⟩
    · by_cases hnil : blocks = []
      · exact hnil
      · obtain ⟨c, rest, htext, -⟩ := (hframed hnil).begins
        rw [h] at htext
        cases htext
    · rw [heq]
      change "\n".intercalate (blocks.map _) = ""
      rw [h, List.map_nil, String.intercalate_nil]
  exact ⟨heq, Block.isLines o.indentSize, hempty.trans fileBlocks_eq_nil_iff,
    fun h => hframed fun hnil => h (hempty.2 hnil), writeFile_eq_runBlocks o f,
    inStep_take o.indentSize blocks⟩

/-- The layout of a message with an enum inside it.  The ninth call leaves the namespace of the
message. -/
theorem generate_layout_nested :
    let s : Span := ⟨1, 1, 0, 1⟩
    let e : EnumDecl := ⟨⟨"E", s⟩, [⟨⟨"A", s⟩, ⟨"0", s⟩, [], s⟩], [], [], s⟩
    let f : File := { messages := [⟨⟨"M", s⟩, [], [], [e], [], [], [], none, [], s⟩] }
    let calls := (fileBlocks id f).flatMap Block.calls
    let w := (calls.take 8).foldl Call.run (Writer.empty 2)
    Framed (generate f {}) ∧ calls[8]? = some .leave ∧ 0 < w.depth := by
  intro s e f calls w
  obtain ⟨-, -, hempty, hframed, -, hcalls⟩ := generate_layout f {}
  have hne : generate f {} ≠ "" := fun h => nomatch (hempty.1 h).2.2.1
  have hleave : calls[8]? = some .leave := by decide +kernel
  exact ⟨hframed hne, hleave, (hcalls 8).2 hleave⟩

end ProtoDecl.TypeScript
