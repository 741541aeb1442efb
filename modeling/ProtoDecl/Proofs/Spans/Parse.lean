import ProtoDecl.Proofs.Spans.Productions

/-!
# The spans of a file

Every file is read up to its end, whatever is wrong with it: no statement of a file gives up
(`total_fileStatements`), and the loop ends only where no token is left
(`view_of_fileStatements`).  Hence the span of a file is the whole source, and the nodes that were
laid on the way lie within (`walk_parse_sound`).
-/

namespace ProtoDecl.Schema

namespace Parser

open Cursor (Ordered)

variable {α β σ : Type} {c d : Cursor}

/-! ## Reading to the end -/

/-- Whether a parser never gives up. -/
def Total (p : Parser α) : Prop :=
  ∀ c, ∃ a d, p.Yields c a d

namespace Total

theorem pure (a : α) : Total (Pure.pure a : Parser α) :=
  fun c => ⟨a, c, rfl⟩

theorem bind {p : Parser α} {f : α → Parser β} (hp : Total p) (hf : ∀ a, Total (f a)) :
    Total (p >>= f) := by
  intro c
  obtain ⟨a, c', ha⟩ := hp c
  obtain ⟨b, d, hb⟩ := hf a c'
  exact ⟨b, d, yields_bind.2 ⟨a, c', ha, hb⟩⟩

theorem attempt (p : Parser α) : Total (Parser.attempt p) :=
  fun _ => ⟨_, _, yields_attempt.2 ⟨rfl, rfl⟩⟩

theorem ask (f : Cursor → α) : Total (Parser.ask f) :=
  fun c => ⟨_, c, rfl⟩

theorem skip : Total Parser.skip :=
  fun c => ⟨(), c.advance, rfl⟩

theorem complain (e : SyntaxError) : Total (Parser.complain e) :=
  fun _ => ⟨(), _, yields_complain.2 rfl⟩

theorem report (wanted : Wanted) : Total (Parser.report wanted) :=
  fun _ => ⟨(), _, yields_report.2 rfl⟩

theorem loop {round : σ → Parser (Round σ)} (h : ∀ s, Total (round s)) (s : σ) :
    Total (Parser.loop round s) := by
  intro c
  change ∃ a d, rounds round s c = (some a, d)
  fun_induction rounds round s c with
  | case1 s c next hr =>
    obtain ⟨r, d, hyields⟩ := h s c
    rw [Yields, hr] at hyields
    simp at hyields
  | case2 s c state next hr => exact ⟨state, next, rfl⟩
  | case3 s c state next hr hlt ih => exact ih
  | case4 s c state next hr hlt => exact ⟨state, _, rfl⟩

end Total

theorem total_fileStatement (isFirst : Bool) (file : File) :
    Total (fileStatement isFirst file) := by
  refine .bind (fun c => ⟨_, c, rfl⟩) fun k => ?_
  split
  case h_1 =>
    refine .bind (.attempt _) fun o => ?_
    split
    · exact .pure _
    · split
      · exact .bind (.complain _) fun _ => .pure _
      · exact .pure _
  case h_2 =>
    refine .bind (.attempt _) fun o => ?_
    split
    · exact .pure _
    · split
      · exact .bind (.complain _) fun _ => .pure _
      · exact .pure _
  case h_9 => exact .bind .skip fun _ => .pure _
  case h_10 => exact .bind (.report _) fun _ => .bind .skip fun _ => .pure _
  all_goals exact .bind (.attempt _) fun o => .pure _

theorem total_fileStatements (s : Bool × File) : Total (fileStatements s) := by
  refine .loop (fun s => .bind (.ask _) fun k => ?_) s
  split
  · exact .pure _
  · exact .bind (total_fileStatement _ _) fun _ => .pure _

/-- A round reads a statement, unless the file is at its end. -/
theorem yields_fileEntry {s : Bool × File} {r : Round (Bool × File)}
    (h : (fileEntry s).Yields c r d) :
    c.view = [] ∧ r = .done s ∧ d = c ∨ c.view ≠ [] ∧ ∃ file,
      (fileStatement s.1 s.2).Yields c file d ∧ r = .again (false, file) := by
  obtain ⟨k, c', hk, hround⟩ := yields_bind.1 h
  obtain ⟨rfl, rfl⟩ := yields_kind.1 hk
  split at hround
  · rename_i hend
    exact .inl ⟨Cursor.current_kind_eq_endOfFile_iff.1 hend, yields_pure.1 hround⟩
  · rename_i hend
    obtain ⟨file, c₁, hfile, hround⟩ := yields_bind.1 hround
    obtain ⟨rfl, rfl⟩ := yields_pure.1 hround
    exact .inr ⟨mt Cursor.current_kind_eq_endOfFile_iff.2 hend, file, hfile, rfl⟩

/-- The statements of a file reach its end. -/
theorem view_of_fileStatements {s s' : Bool × File} (h : (fileStatements s).Yields c s' d) :
    d.view = [] := by
  have hagain : ∀ s c s' d, (fileEntry s).Yields c (.again s') d → c.view ≠ [] := by
    intro s c s' d hround
    rcases yields_fileEntry hround with ⟨-, hr, -⟩ | ⟨hview, -⟩
    · cases hr
    · exact hview
  obtain ⟨s₁, c₁, hlast⟩ := loop_ends hagain h
  rcases yields_fileEntry hlast with ⟨hview, -, rfl⟩ | ⟨-, file, -, hr⟩
  · exact hview
  · cases hr

/-! ## The parts of a file -/

theorem extends_fileStatement (isFirst : Bool) :
    Extends (fileStatement isFirst) (Node.parts ∘ .file) := by
  intro c₀ c file h
  refine .ask ?_
  split
  case h_1 =>
    refine h.next lays_edition.attempt fun o c₁ h => .ite (fun _ => .pure ?_) fun _ => ?_
    · exact h.weaken (by cases o <;> simp [Node.parts])
    · split
      · exact h.forget.pass fun _ c₂ h => .pure h
      · exact .pure h.forget
  case h_2 =>
    refine h.next lays_package.attempt fun o c₁ h => ?_
    split
    · exact .pure h.forget
    · refine .ite (fun _ => h.forget.pass fun _ c₂ h => .pure h) fun _ => .pure ?_
      exact h.weaken (by simp [Node.parts])
  case h_3 => exact h.added (Node.parts ∘ .file) lays_importStatement.attempt (by simp [Node.parts])
  case h_4 => exact h.added (Node.parts ∘ .file) lays_optionStatement.attempt (by simp [Node.parts])
  case h_5 => exact h.added (Node.parts ∘ .file) lays_enumDecl.attempt (by simp [Node.parts])
  case h_6 => exact h.added (Node.parts ∘ .file) lays_message.attempt (by simp [Node.parts])
  case h_7 => exact h.added (Node.parts ∘ .file) lays_service.attempt (by simp [Node.parts])
  case h_8 => exact h.added (Node.parts ∘ .file) lays_extend.attempt (by simp [Node.parts])
  case h_9 => exact h.pass fun _ c₁ h => .pure h
  case h_10 => exact h.pass fun _ c₁ h => h.pass fun _ c₂ h => .pure h

/-- The parts of a file are laid between the first token and the last one. -/
theorem laying_fileStatements (hc : Ordered c) :
    Ensures c (fileStatements (true, {})) fun s d => Laying c (Node.file s.2).parts d := by
  refine Laying.loop (fun s : Bool × File => (Node.file s.2).parts) (fun {c' s} h => ?_)
    ((Laying.start hc).weaken (by simp [Node.parts]))
  refine .ask (.ite (fun _ => .pure h) fun _ => ?_)
  exact .bind (extends_fileStatement s.1 h) fun file c₁ _ h => .pure h

end Parser

/-! ## Sources -/

/-- The file is what the reading of its statements yields, but for the span, and the errors are all
that is reported up to there. -/
theorem parse_yields (tokens : List Token) :
    ∃ s d, (Parser.fileStatements (true, {})).Yields (Cursor.ofTokens tokens) s d ∧
      parse tokens = ⟨{ s.2 with span := ⟨1, 1, 0, d.current.span.stop⟩ }, d.errors⟩ := by
  obtain ⟨s, d, hrun⟩ := Parser.total_fileStatements (true, {}) (Cursor.ofTokens tokens)
  refine ⟨s, d, hrun, ?_⟩
  unfold parse
  rw [hrun]
  rfl

/-- The file of a source: it reaches from the beginning of the text through its end, and its parts
are laid in between. -/
theorem laid_parse (source : String) :
    let file := (parse (tokenize source).tokens).file
    file.span = ⟨1, 1, 0, source.utf8ByteSize⟩ ∧
      ∀ part ∈ (Node.file file).parts, Laid 0 source.utf8ByteSize part := by
  obtain ⟨s, d, hrun, hparsed⟩ := parse_yields (tokenize source).tokens
  obtain ⟨hstart, hstop⟩ := Cursor.eof_ofTokens_tokenize source
  have hview := Parser.view_of_fileStatements hrun
  have hlaying := Parser.laying_fileStatements (Cursor.ordered_ofTokens source) s d hrun
  have heof : d.eof = (Cursor.ofTokens (tokenize source).tokens).eof := hrun.leads.eof_eq
  have hend : d.current.span.stop = source.utf8ByteSize := by
    rw [Cursor.current_of_view_nil hview, heof, hstop]
  have hlast : d.lastEnd ≤ source.utf8ByteSize := by
    have hle := hlaying.later.ordered.lastEnd_le_front
    rwa [Cursor.front_of_view_nil hview, heof, hstart] at hle
  rw [hparsed, hend]
  refine ⟨rfl, fun part hpart => ?_⟩
  exact (hlaying.laid part hpart).mono (Nat.zero_le _) hlast

/-- Whatever the source, its file spans the whole text, and every node met on a walk through it
begins before it ends, lies within the node that owns it, and has its lists in the order of the
text. -/
theorem walk_parse_sound (source : String) :
    let file := (parse (tokenize source).tokens).file
    file.span.start = 0 ∧ file.span.stop = source.utf8ByteSize ∧
      ∀ v ∈ (Node.file file).walk, v.Sound := by
  intro file
  obtain ⟨hspan, hlaid⟩ := laid_parse source
  have hstart : file.span.start = 0 := by rw [hspan]
  have hstop : file.span.stop = source.utf8ByteSize := by rw [hspan]
  refine ⟨hstart, hstop, Placed.mem_walkFrom (placed_of_laid fun part hpart => ?_) ?_ (by simp)⟩
  · change Laid file.span.start file.span.stop part
    rw [hstart, hstop]
    exact hlaid part hpart
  · change file.span.start ≤ file.span.stop
    rw [hstart]
    exact Nat.zero_le _

end ProtoDecl.Schema
