import ProtoDecl.Proofs.Errors
import ProtoDecl.Proofs.Prefix.Productions
import ProtoDecl.Proofs.Spans.Parse

/-!
# More tokens behind a file

If a list of tokens is read without errors, and more tokens follow, then its statements are read as
before, and the reading goes on behind them (`fileStatements_kept`).  What it reads there is added
to the file and takes nothing away (`File.Grows`), and all that it reports concerns the additional
tokens (`parse_prefix_kept`).
-/

namespace ProtoDecl.Schema

/-- Each list of `g` begins with that of `f`, and its package is that of `f` if there is one. -/
structure File.Grows (f g : File) : Prop where
  imports : f.imports <+: g.imports
  options : f.options <+: g.options
  enums : f.enums <+: g.enums
  messages : f.messages <+: g.messages
  services : f.services <+: g.services
  extendBlocks : f.extendBlocks <+: g.extendBlocks
  package : f.package.isSome = true → g.package = f.package

namespace File.Grows

variable {f g h : File}

theorem refl (f : File) : f.Grows f :=
  ⟨List.prefix_rfl, List.prefix_rfl, List.prefix_rfl, List.prefix_rfl, List.prefix_rfl,
    List.prefix_rfl, fun _ => rfl⟩

theorem trans (hfg : f.Grows g) (hgh : g.Grows h) : f.Grows h where
  imports := hfg.imports.trans hgh.imports
  options := hfg.options.trans hgh.options
  enums := hfg.enums.trans hgh.enums
  messages := hfg.messages.trans hgh.messages
  services := hfg.services.trans hgh.services
  extendBlocks := hfg.extendBlocks.trans hgh.extendBlocks
  package hf := by
    have hg := hfg.package hf
    rw [hgh.package (by rw [hg, hf]), hg]

end File.Grows

namespace Parser

open Cursor (Continues)

variable {c d c' : Cursor} {v : List Token}

/-! ## Statements are kept -/

/-- A statement that is read before the end of the file is read in the same way before more
tokens. -/
theorem fileStatement_kept {isFirst : Bool} {file file' : File}
    (h : (fileStatement isFirst file).Reads c file' d) (hc : c.Continues v c') :
    ∃ d', (fileStatement isFirst file).Reads c' file' d' ∧ d.Continues v d' := by
  obtain ⟨w, hw, hitem⟩ := (parses_fileStatement isFirst file).sound h
  -- There is a reading of the same tokens, and it could be made from the shorter view.
  have hview : c'.view = w ++ (d.view ++ v) := by rw [hc.view, hw, List.append_assoc]
  obtain ⟨file'', d', h', hd', -⟩ :=
    (parses_fileStatement isFirst file).complete hitem hview trivial
  have hsuffix : v <:+ d'.view := ⟨d.view, hd'.symm⟩
  obtain ⟨d₁, h₁, hd₁⟩ := truncates_fileStatement isFirst file hc h' hsuffix
  obtain ⟨rfl, rfl⟩ : file'' = file' ∧ d₁ = d := by
    have hrun : (some file'', d₁) = (some file', d) := h₁.1.symm.trans h.1
    simpa using hrun
  exact ⟨d', h', hd₁⟩

theorem fileStatements_kept {s s' : Bool × File} (h : (fileStatements s).Reads c s' d)
    (hc : c.Continues v c') :
    ∃ d', c'.Leads d' ∧ d'.view = v ∧ d'.errors = c'.errors ∧
      (fileStatements s).run c' = (fileStatements s').run d' := by
  refine Reads.loop_induct
    (P := fun s c s' _ => ∀ c', c.Continues v c' → ∃ d', c'.Leads d' ∧ d'.view = v ∧
      d'.errors = c'.errors ∧ (fileStatements s).run c' = (fileStatements s').run d')
    fileEntry_progress ?_ ?_ h c' hc
  · intro s c s' d hlast c' hc
    rcases reads_fileEntry.1 hlast with ⟨hview, hr, -⟩ | ⟨-, _, -, hr⟩
    · cases hr
      exact ⟨c', .refl c', by rw [hc.view, hview, List.nil_append], rfl, rfl⟩
    · cases hr
  · intro s c s₁ c₁ s' d hround ih c' hc
    rcases reads_fileEntry.1 hround with ⟨-, hr, -⟩ | ⟨hview, file, hfile, hr⟩
    · cases hr
    · cases hr
      obtain ⟨c₁', hfile', hc₁⟩ := fileStatement_kept hfile hc
      obtain ⟨d', hleads, hd', herrors, hrun⟩ := ih c₁' hc₁
      have hview' : c'.view ≠ [] := by
        rw [hc.view]
        exact List.append_ne_nil_of_left_ne_nil hview v
      have hround' : (fileEntry s).Reads c' (.again (false, file)) c₁' :=
        reads_fileEntry.2 (.inr ⟨hview', file, hfile', rfl⟩)
      refine ⟨d', hfile'.leads.trans hleads, hd', herrors.trans hfile'.2, ?_⟩
      rw [← hrun]
      exact run_loop_again hround'.1 (fileEntry_progress _ _ _ _ hround')

/-! ## Files grow -/

/-- A statement adds to a file, and only the first one can name the version. -/
theorem grows_fileStatement (isFirst : Bool) (file : File) :
    Ensures c (fileStatement isFirst file) fun file' _ =>
      file.Grows file' ∧ (isFirst = false → file'.edition = file.edition) := by
  have hsame := File.Grows.refl file
  refine .ask ?_
  split
  case h_1 =>
    refine .next fun o c₁ _ => .ite (fun hfirst => .pure ⟨{ hsame with }, ?_⟩) fun _ => ?_
    · exact fun hnot => absurd hfirst (by simp [hnot])
    · cases o with
      | none => exact .pure ⟨hsame, fun _ => rfl⟩
      | some late => exact .next fun _ _ _ => .pure ⟨hsame, fun _ => rfl⟩
  case h_2 =>
    refine .next fun o c₁ _ => ?_
    cases o with
    | none => exact .pure ⟨hsame, fun _ => rfl⟩
    | some package =>
      refine .ite (fun _ => .next fun _ _ _ => .pure ⟨hsame, fun _ => rfl⟩) fun hnone => ?_
      exact .pure ⟨{ hsame with package := fun hsome => absurd hsome hnone }, fun _ => rfl⟩
  case h_3 =>
    exact .next fun o _ _ => .pure ⟨{ hsame with imports := List.prefix_append _ _ }, fun _ => rfl⟩
  case h_4 =>
    exact .next fun o _ _ => .pure ⟨{ hsame with options := List.prefix_append _ _ }, fun _ => rfl⟩
  case h_5 =>
    exact .next fun o _ _ => .pure ⟨{ hsame with enums := List.prefix_append _ _ }, fun _ => rfl⟩
  case h_6 =>
    exact .next fun o _ _ => .pure ⟨{ hsame with messages := List.prefix_append _ _ }, fun _ => rfl⟩
  case h_7 =>
    exact .next fun o _ _ => .pure ⟨{ hsame with services := List.prefix_append _ _ }, fun _ => rfl⟩
  case h_8 =>
    exact .next fun o _ _ =>
      .pure ⟨{ hsame with extendBlocks := List.prefix_append _ _ }, fun _ => rfl⟩
  case h_9 => exact .next fun _ _ _ => .pure ⟨hsame, fun _ => rfl⟩
  case h_10 => exact .next fun _ _ _ => .next fun _ _ _ => .pure ⟨hsame, fun _ => rfl⟩

theorem grows_fileStatements {s s' : Bool × File} (h : (fileStatements s).Yields c s' d) :
    s.2.Grows s'.2 ∧ (s.1 = false → s'.1 = false ∧ s'.2.edition = s.2.edition) := by
  refine loop_invariant
    (P := fun (s' : Bool × File) _ =>
      s.2.Grows s'.2 ∧ (s.1 = false → s'.1 = false ∧ s'.2.edition = s.2.edition))
    (fun _ _ hs => hs) ?_ ?_ h ⟨.refl _, fun hs => ⟨hs, rfl⟩⟩
  · rintro s₁ c₁ s₂ c₂ ⟨hgrows, hedition⟩ hround
    rcases yields_fileEntry hround with ⟨-, hr, -⟩ | ⟨-, file, hfile, hr⟩
    · cases hr
    · cases hr
      obtain ⟨hgrows', hedition'⟩ := grows_fileStatement _ _ file c₂ hfile
      refine ⟨hgrows.trans hgrows', fun hs => ⟨rfl, ?_⟩⟩
      rw [hedition' (hedition hs).1, (hedition hs).2]
  · rintro s₁ c₁ s₂ c₂ hs hround
    rcases yields_fileEntry hround with ⟨-, hr, -⟩ | ⟨-, file, -, hr⟩
    · cases hr
      exact hs
    · cases hr

/-- Behind a token that matters, no statement is the first one. -/
theorem not_first_of_reads {s s' : Bool × File} (h : (fileStatements s).Reads c s' d)
    (hview : c.view ≠ []) : s'.1 = false := by
  rcases (reads_loop fileEntry_progress).1 h with hlast | ⟨s₁, c₁, hround, hrest⟩
  · rcases reads_fileEntry.1 hlast with ⟨hnil, -⟩ | ⟨-, file, -, hr⟩
    · exact absurd hnil hview
    · cases hr
  · rcases reads_fileEntry.1 hround with ⟨hnil, -⟩ | ⟨-, file, -, hr⟩
    · exact absurd hnil hview
    · cases hr
      exact ((grows_fileStatements hrest.1).2 rfl).1

end Parser

/-! ## Lists of tokens -/

theorem parse_of_run {tokens : List Token} {s : Bool × File} {d : Cursor}
    (h : (Parser.fileStatements (true, {})).run (Cursor.ofTokens tokens) = (some s, d)) :
    parse tokens = ⟨{ s.2 with span := ⟨1, 1, 0, d.current.span.stop⟩ }, d.errors⟩ := by
  rw [parse, h]
  rfl

/-- The reading of a longer list begins with the tokens of the shorter one. -/
theorem continues_ofTokens {A B : List Token} {eof eof' : Token}
    (hA : ∀ t ∈ A, t.kind ≠ .endOfFile) (hB : ∀ t ∈ B, t.kind ≠ .endOfFile)
    (heof : eof.kind = .endOfFile) (heof' : eof'.kind = .endOfFile) :
    (Cursor.ofTokens (A ++ [eof])).Continues (B.filter fun t => !Cursor.isComment t)
        (Cursor.ofTokens (A ++ B ++ [eof'])) ∧
      (Cursor.ofTokens (A ++ [eof])).view = A.filter (fun t => !Cursor.isComment t) ∧
      (Cursor.ofTokens (A ++ B ++ [eof'])).eof = eof' := by
  have hopen : ∀ t ∈ A, Cursor.isClose t = false := fun t ht => by simp [Cursor.isClose, hA t ht]
  have hopen' : ∀ t ∈ A ++ B, Cursor.isClose t = false := by
    intro t ht
    rcases List.mem_append.1 ht with ht | ht
    · exact hopen t ht
    · simp [Cursor.isClose, hB t ht]
  have hclose : Cursor.isClose eof = true := by simp [Cursor.isClose, heof]
  have hclose' : Cursor.isClose eof' = true := by simp [Cursor.isClose, heof']
  have hview : (Cursor.ofTokens (A ++ [eof])).view = A.filter fun t => !Cursor.isComment t := by
    rw [Cursor.view_ofTokens, significant_closed hopen hclose]
  refine ⟨⟨?_, rfl⟩, hview, ?_⟩
  · rw [hview, Cursor.view_ofTokens, significant_closed hopen' hclose', List.filter_append]
  · rw [Cursor.eof_ofTokens, closeOf_closed hopen' hclose']

/-- Tokens behind a list that is read without errors do not change how it is read.  The file has
the same parts as before, each with the same spans, and possibly more behind them; its package
stays, and its version too if the list has a token that matters.  All errors concern the additional
tokens: they are at one of them or at the end, or at a whole statement that begins with one. -/
theorem parse_prefix_kept {A B : List Token} {eof eof' : Token}
    (hA : ∀ t ∈ A, t.kind ≠ .endOfFile) (hB : ∀ t ∈ B, t.kind ≠ .endOfFile)
    (heof : eof.kind = .endOfFile) (heof' : eof'.kind = .endOfFile)
    (h : (parse (A ++ [eof])).errors = []) :
    (parse (A ++ [eof])).file.Grows (parse (A ++ B ++ [eof'])).file ∧
    ((∃ t ∈ A, t.kind ≠ .comment) →
      (parse (A ++ B ++ [eof'])).file.edition = (parse (A ++ [eof])).file.edition) ∧
    ∀ e ∈ (parse (A ++ B ++ [eof'])).errors, (∃ t ∈ B, e.span = t.span) ∨ e.span = eof'.span ∨
      e.expected = [] ∧ ∃ t ∈ B, e.span = { t.span with stop := e.span.stop } := by
  obtain ⟨s, d, hread⟩ := reads_of_parse h
  obtain ⟨hc, hview, hend⟩ := continues_ofTokens hA hB heof heof'
  obtain ⟨d', hleads, hd', herrors, hrun⟩ := Parser.fileStatements_kept hread hc
  obtain ⟨s', d'', hrest⟩ := Parser.total_fileStatements s d'
  obtain ⟨hgrows, hedition⟩ := Parser.grows_fileStatements hrest
  rw [parse_of_run hread.1, parse_of_run (hrun.trans hrest)]
  refine ⟨{ hgrows with }, fun ⟨t, ht, hk⟩ => ?_, fun e he => ?_⟩
  · have hne : (Cursor.ofTokens (A ++ [eof])).view ≠ [] := by
      rw [hview]
      exact List.ne_nil_of_mem (List.mem_filter.2 ⟨ht, by simp [Cursor.isComment, hk]⟩)
    exact (hedition (Parser.not_first_of_reads hread hne)).2
  · have hreported : e ∈ ((Parser.fileStatements s).run d').2.errors := by
      rw [show (Parser.fileStatements s).run d' = _ from hrest]
      exact he
    rcases Parser.justified_fileStatements s e hreported with he | he
    · rw [herrors] at he
      exact absurd he List.not_mem_nil
    · have hB : ∀ t ∈ d'.view, t ∈ B := fun t ht => List.mem_of_mem_filter (hd' ▸ ht)
      rcases he.span with ⟨t, ht, hspan⟩ | hspan | ⟨hexpected, t, ht, u, -, hspan⟩
      · exact .inl ⟨t, hB t ht, hspan⟩
      · rw [hleads.eof_eq, hend] at hspan
        exact .inr (.inl hspan)
      · exact .inr (.inr ⟨hexpected, t, hB t ht, by rw [hspan, Span.through]⟩)

/-- Behind a package come a second one, which is too many, and a message that breaks off.  The first
package stays, and both errors are behind it. -/
theorem parse_prefix_kept_package :
    let A : List Token := [⟨.comment, "// p", ⟨1, 1, 0, 4⟩⟩,
      ⟨.keyword .package, "package", ⟨2, 1, 5, 12⟩⟩, ⟨.identifier, "p", ⟨2, 9, 13, 14⟩⟩,
      ⟨.symbol .semicolon, ";", ⟨2, 10, 14, 15⟩⟩]
    let B : List Token := [⟨.keyword .package, "package", ⟨3, 1, 16, 23⟩⟩,
      ⟨.identifier, "q", ⟨3, 9, 24, 25⟩⟩, ⟨.symbol .semicolon, ";", ⟨3, 10, 25, 26⟩⟩,
      ⟨.keyword .message, "message", ⟨4, 1, 27, 34⟩⟩]
    let eof : Token := ⟨.endOfFile, "", ⟨2, 11, 15, 15⟩⟩
    let eof' : Token := ⟨.endOfFile, "", ⟨4, 8, 34, 34⟩⟩
    (parse (A ++ [eof])).errors = [] ∧ (parse (A ++ B ++ [eof'])).errors.length = 2 ∧
      (parse (A ++ [eof])).file.package.isSome = true ∧
      (parse (A ++ B ++ [eof'])).file.package = (parse (A ++ [eof])).file.package ∧
      ∀ e ∈ (parse (A ++ B ++ [eof'])).errors, (∃ t ∈ B, e.span = t.span) ∨ e.span = eof'.span ∨
        e.expected = [] ∧ ∃ t ∈ B, e.span = { t.span with stop := e.span.stop } := by
  intro A B eof eof'
  have hread : (parse (A ++ [eof])).errors = [] := by decide +kernel
  have hpackage : (parse (A ++ [eof])).file.package.isSome = true := by decide +kernel
  obtain ⟨hgrows, -, herrors⟩ :=
    @parse_prefix_kept A B eof eof' (by decide) (by decide) rfl rfl hread
  exact ⟨hread, by decide +kernel, hpackage, hgrows.package hpackage, herrors⟩

end ProtoDecl.Schema
