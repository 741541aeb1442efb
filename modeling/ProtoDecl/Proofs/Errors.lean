import ProtoDecl.Proofs.Grammar.Declarations
import ProtoDecl.Proofs.Spans.Lays
import ProtoDecl.Schema.Grammar.File

/-!
# What errors say

Every error concerns tokens that are there (`Cursor.Justifies`).  Where something else was wanted,
the token found is one of those that were left to read, or the end of the file, and it is of no kind
that would have done.  A number that is no integer stands in the list as reported, and a statement
in the wrong place begins with one of the tokens.

`JustifiedAt` says so of all that a parser reports.  Its rules follow the ways of building parsers,
and the productions follow from them, up to whole files (`parse_justified`).
-/

namespace ProtoDecl.Schema

namespace Cursor

variable {c d : Cursor} {e : SyntaxError}

/-- Whether the tokens left to read at a cursor justify an error. -/
def Justifies (c : Cursor) : SyntaxError → Prop
  | .unexpected wanted found => (found ∈ c.view ∨ found = c.eof) ∧ found.kind ∉ wanted.kinds
  | .lateEdition span => ∃ t ∈ c.view, ∃ u ∈ c.view, span = t.span.through u.span
  | .repeatedPackage _ span => ∃ t ∈ c.view, ∃ u ∈ c.view, span = t.span.through u.span
  | .fieldNumber raw span => ∃ t ∈ c.view, raw = t.value ∧ span = t.span
  | .enumNumber raw span => ∃ t ∈ c.view, raw = t.value ∧ span = t.span

theorem Justifies.of_leads (h : c.Leads d) (he : d.Justifies e) : c.Justifies e := by
  have hview : ∀ t ∈ d.view, t ∈ c.view := fun t ht => h.view_suffix.subset ht
  cases e with
  | unexpected wanted found =>
    refine ⟨he.1.imp (hview found) fun heof => ?_, he.2⟩
    rw [heof, h.eof_eq]
  | lateEdition span =>
    obtain ⟨t, ht, u, hu, hspan⟩ := he
    exact ⟨t, hview t ht, u, hview u hu, hspan⟩
  | repeatedPackage name span =>
    obtain ⟨t, ht, u, hu, hspan⟩ := he
    exact ⟨t, hview t ht, u, hview u hu, hspan⟩
  | fieldNumber raw span => exact he.imp fun t ht => ⟨hview t ht.1, ht.2⟩
  | enumNumber raw span => exact he.imp fun t ht => ⟨hview t ht.1, ht.2⟩

/-- An error is at a token or at the end of the file, or at a statement, from its first token
through its last. -/
theorem Justifies.span (h : c.Justifies e) :
    (∃ t ∈ c.view, e.span = t.span) ∨ e.span = c.eof.span ∨
      e.expected = [] ∧ ∃ t ∈ c.view, ∃ u ∈ c.view, e.span = t.span.through u.span := by
  cases e with
  | unexpected wanted found =>
    rcases h.1 with hmem | rfl
    · exact .inl ⟨found, hmem, rfl⟩
    · exact .inr (.inl rfl)
  | lateEdition span => exact .inr (.inr ⟨rfl, h⟩)
  | repeatedPackage name span => exact .inr (.inr ⟨rfl, h⟩)
  | fieldNumber raw span => exact .inl (h.imp fun t ht => ⟨ht.1, ht.2.2⟩)
  | enumNumber raw span => exact .inl (h.imp fun t ht => ⟨ht.1, ht.2.2⟩)

/-- An error that is justified may be reported further on. -/
theorem Justifies.reported (h : c.Justifies e) {e' : SyntaxError} (he : e' ∈ (d.report e).errors) :
    e' ∈ d.errors ∨ c.Justifies e' := by
  rw [report, List.mem_append, List.mem_singleton] at he
  rcases he with he | rfl
  · exact .inl he
  · exact .inr h

theorem current_mem (c : Cursor) : c.current ∈ c.view ∨ c.current = c.eof := by
  cases hview : c.view with
  | nil => exact .inr (current_of_view_nil hview)
  | cons t w =>
    rw [current_of_view hview]
    exact .inl List.mem_cons_self

theorem current_mem_of_kind (h : c.current.kind ≠ .endOfFile) : c.current ∈ c.view := by
  rw [view_eq_cons h]
  exact List.mem_cons_self

theorem justifies_current {wanted : Wanted} (h : c.current.kind ∉ wanted.kinds) :
    c.Justifies (.unexpected wanted c.current) :=
  ⟨c.current_mem, h⟩

end Cursor

namespace Parser

variable {α β σ : Type} {c d : Cursor} {p : Parser α}

theorem not_mem_of_not_isName {k : Kind} (h : ¬k.isName = true) : k ∉ [Kind.identifier] := by
  rw [List.mem_singleton]
  rintro rfl
  exact h rfl

theorem errors_resume (c next : Cursor) : (resume c next).errors = next.errors := by
  unfold resume
  split
  · exact next.advance_errors
  · rfl

/-- All that a parser reports from `c` on is justified there. -/
def JustifiedAt (c : Cursor) (p : Parser α) : Prop :=
  ∀ e ∈ (p.run c).2.errors, e ∈ c.errors ∨ c.Justifies e

namespace JustifiedAt

/-! ## Sequences -/

theorem silent (h : (p.run c).2.errors = c.errors) : JustifiedAt c p :=
  fun _ he => .inl (h ▸ he)

theorem pure (a : α) : JustifiedAt c (Pure.pure a) :=
  silent rfl

theorem reporting {e : SyntaxError} (hrun : (p.run c).2 = c.report e) (h : c.Justifies e) :
    JustifiedAt c p := by
  intro e' he'
  rw [hrun] at he'
  exact h.reported he'

/-- What follows may also report what is justified only by what was read before. -/
theorem bind_of {f : α → Parser β} (hp : JustifiedAt c p)
    (hf : ∀ a d, p.Yields c a d → ∀ e ∈ ((f a).run d).2.errors, e ∈ d.errors ∨ c.Justifies e) :
    JustifiedAt c (p >>= f) := by
  intro e he
  rw [run_bind] at he
  split at he
  · rename_i a d hrun
    rcases hf a d hrun e he with he | he
    · exact hp e (by rwa [hrun])
    · exact .inr he
  · rename_i d hrun
    exact hp e (by rwa [hrun])

theorem bind {f : α → Parser β} (hp : JustifiedAt c p)
    (hf : ∀ a d, p.Yields c a d → JustifiedAt d (f a)) : JustifiedAt c (p >>= f) :=
  bind_of hp fun a d ha e he => (hf a d ha e he).imp_right (.of_leads ha.leads)

theorem attempt (hp : JustifiedAt c p) : JustifiedAt c (Parser.attempt p) :=
  hp

/-- What is added to a tree, if it was read. -/
theorem added (hp : JustifiedAt c p) {k : Option α → β} :
    JustifiedAt c (Parser.attempt p >>= fun o => Pure.pure (k o)) :=
  bind hp.attempt fun _ _ _ => pure _

theorem tolerate (hp : JustifiedAt c p) : JustifiedAt c (Parser.tolerate p) :=
  hp

theorem moving (hp : JustifiedAt c p) : JustifiedAt c (Parser.moving p) := by
  intro e he
  refine hp e ?_
  rw [Parser.moving] at he
  dsimp only at he
  split at he <;> simp_all

theorem ite {P : Prop} [Decidable P] {q : Parser α} (hp : P → JustifiedAt c p)
    (hq : ¬P → JustifiedAt c q) : JustifiedAt c (if P then p else q) := by
  split
  · exact hp ‹_›
  · exact hq ‹_›

/-! ## Looking and moving -/

theorem ask {γ : Type} {g : Cursor → γ} {f : γ → Parser β} (h : JustifiedAt c (f (g c))) :
    JustifiedAt c (Parser.ask g >>= f) :=
  h

theorem take {f : Token → Parser β} (h : JustifiedAt c.advance (f c.current)) :
    JustifiedAt c (Parser.take >>= f) := by
  refine bind (silent c.advance_errors) fun t d ht => ?_
  obtain ⟨rfl, rfl⟩ := yields_take.1 ht
  exact h

theorem skip {f : Unit → Parser β} (h : JustifiedAt c.advance (f ())) :
    JustifiedAt c (Parser.skip >>= f) := by
  refine bind (silent c.advance_errors) fun u d hu => ?_
  rw [yields_skip] at hu
  subst hu
  exact h

theorem accepting (k : Kind) : JustifiedAt c (Parser.accept k) := by
  refine silent ?_
  rw [Parser.accept]
  dsimp only
  split
  · exact c.advance_errors
  · rfl

theorem accept {k : Kind} {f : Option Token → Parser β}
    (hsome : JustifiedAt c.advance (f (some c.current)))
    (hnone : c.current.kind ≠ k → JustifiedAt c (f none)) :
    JustifiedAt c (Parser.accept k >>= f) := by
  refine bind (accepting k) fun o d ho => ?_
  rcases yields_accept.1 ho with ⟨-, rfl, rfl⟩ | ⟨hk, rfl, rfl⟩
  · exact hsome
  · exact hnone hk

/-! ## Reporting -/

theorem report {wanted : Wanted} (h : c.current.kind ∉ wanted.kinds) :
    JustifiedAt c (Parser.report wanted) :=
  reporting rfl (Cursor.justifies_current h)

theorem want {wanted : Wanted} (h : c.current.kind ∉ wanted.kinds) :
    JustifiedAt c (Parser.want wanted : Parser α) :=
  reporting rfl (Cursor.justifies_current h)

theorem expectAs {k : Kind} {wanted : Wanted} (h : wanted.kinds = [k]) :
    JustifiedAt c (Parser.expectAs k wanted) := by
  refine accept (pure _) fun hk => want ?_
  rw [h, List.mem_singleton]
  exact hk

theorem expect (k : Kind) (point : String) : JustifiedAt c (Parser.expect k point) :=
  expectAs rfl

theorem name (subject : String) : JustifiedAt c (Parser.name subject) := by
  exact ask (ite (fun _ => skip (pure _)) fun hname => want (not_mem_of_not_isName hname))

/-! ## Repetition -/

theorem loop {round : σ → Parser (Round σ)} (h : ∀ s d, c.Leads d → JustifiedAt d (round s))
    (s : σ) : JustifiedAt c (Parser.loop round s) := by
  change ∀ e ∈ (rounds round s c).2.errors, e ∈ c.errors ∨ c.Justifies e
  fun_induction rounds round s c with
  | case1 s c next hr =>
    have hround := h s c (.refl c)
    rwa [JustifiedAt, hr] at hround
  | case2 s c state next hr =>
    have hround := h s c (.refl c)
    rwa [JustifiedAt, hr] at hround
  | case3 s c state next hr hlt ih =>
    intro e he
    have hround := h s c (.refl c)
    have hleads := ((round s).fair c).leads
    rw [JustifiedAt, hr] at hround
    rw [hr] at hleads
    replace hleads := hleads.trans (leads_resume c next)
    rcases ih (fun s d hd => h s d (hleads.trans hd)) e he with he | he
    · exact hround e (by rwa [errors_resume] at he)
    · exact .inr (he.of_leads hleads)
  | case4 s c state next hr hlt =>
    have hround := h s c (.refl c)
    rw [JustifiedAt, hr] at hround
    rwa [errors_resume]

/-- A parser that calls itself further on may rely on what holds there. -/
theorem recursive {step : Parser α → Parser α} (hlocal : Local step) (wanted : Wanted)
    (h : ∀ c, (∀ d, d.remaining < c.remaining → JustifiedAt d (Parser.recursive wanted step)) →
      JustifiedAt c (step (Parser.recursive wanted step))) (c : Cursor) :
    JustifiedAt c (Parser.recursive wanted step) := by
  induction c using (measure Cursor.remaining).wf.induction with
  | h c ih =>
    rw [JustifiedAt, recursive_eq_step hlocal]
    exact h c ih

/-! ## Statements between braces -/

theorem block {closing : String} {statement : σ → Parser σ}
    (h : ∀ s d, c.Leads d → d.current.kind ∉ noStatement → JustifiedAt d (statement s)) (s : σ) :
    JustifiedAt c (Parser.block closing statement s) := by
  refine loop (fun s d hd => ask ?_) s
  split
  · exact skip (pure _)
  · rename_i hk
    exact bind (report (by simp [hk, Wanted.kinds])) fun _ _ _ => pure _
  · exact skip (pure _)
  · refine bind (h s d hd ?_) fun _ _ _ => pure _
    simp_all [noStatement]

theorem body {opening closing : String} {statement : σ → Parser σ}
    (h : ∀ s d, c.Leads d → d.current.kind ∉ noStatement → JustifiedAt d (statement s)) (s : σ) :
    JustifiedAt c (Parser.body opening closing statement s) := by
  refine bind (attempt (expect _ _)) fun o c₁ ho => ?_
  cases o with
  | none => exact pure _
  | some t => exact block (fun s d hd => h s d (ho.leads.trans hd)) s

end JustifiedAt

/-! ## Names and options -/

theorem justified_segment (subject text : String) : JustifiedAt c (segment subject text) := by
  refine .accept (.ask (.ite (fun _ => .skip (.pure _)) fun hname => ?_)) fun _ => .pure _
  exact .bind (.report (not_mem_of_not_isName hname)) fun _ _ _ => .pure _

theorem justified_segments (subject text : String) : JustifiedAt c (segments subject text) :=
  .loop (fun text _ _ => justified_segment subject text) text

theorem justified_dottedName (subject : String) : JustifiedAt c (dottedName subject) := by
  refine .ask (.bind (.name subject) fun _ _ _ => ?_)
  exact .bind (justified_segments subject _) fun _ _ _ => .ask (.pure _)

theorem justified_typeName (subject : String) : JustifiedAt c (typeName subject) := by
  refine .ask (.bind (.accepting _) fun _ _ _ => .bind (.name subject) fun _ _ _ => ?_)
  exact .bind (justified_segments subject _) fun _ _ _ => .ask (.pure _)

theorem justified_optionName : JustifiedAt c optionName := by
  refine .accept (.bind (justified_typeName _) fun _ _ _ => ?_) fun _ => justified_dottedName _
  refine .bind (.expect _ _) fun _ _ _ => .bind (justified_segments _ _) fun _ _ _ => ?_
  exact .ask (.pure _)

theorem justified_optionValue : JustifiedAt c optionValue := by
  refine .ask ?_
  split
  · exact .take (.pure _)
  · exact .take (.pure _)
  · exact .take (.pure _)
  · exact .take (.pure _)
  · refine .bind (.report (by simp_all [Wanted.kinds])) fun _ _ _ => ?_
    exact .ite (fun _ => .skip (.pure _)) fun _ => .pure _

theorem justified_assignment : JustifiedAt c assignment := by
  refine .ask (.bind justified_optionName fun _ _ _ => .bind (.expect _ _) fun _ _ _ => ?_)
  exact .bind justified_optionValue fun _ _ _ => .ask (.pure _)

theorem justified_optionStatement : JustifiedAt c optionStatement := by
  refine .skip (.bind justified_assignment fun _ _ _ => ?_)
  exact .bind (.tolerate (.expect _ _)) fun _ _ _ => .pure _

theorem justified_optionSeparator : JustifiedAt c optionSeparator := by
  refine .accept (.pure _) fun hcomma => .ask ?_
  split
  case h_5 =>
    refine .bind (.report (by simp_all [Wanted.kinds])) fun _ d _ => ?_
    exact .silent d.advance_errors
  all_goals exact .pure _

theorem justified_optionEntry (os : List OptionDecl) : JustifiedAt c (optionEntry os) := by
  refine .ask ?_
  split
  · exact .skip (.pure _)
  · exact .bind (.report (by simp_all [Wanted.kinds])) fun _ _ _ => .pure _
  · exact .bind (.report (by simp_all [Wanted.kinds])) fun _ _ _ => .pure _
  · exact .bind (.report (by simp_all [Wanted.kinds])) fun _ _ _ => .pure _
  · refine .bind (.moving (.attempt justified_assignment)) fun _ _ _ => ?_
    exact .ite (fun _ => .bind justified_optionSeparator fun _ _ _ => .pure _) fun _ => .pure _

theorem justified_optionList : JustifiedAt c optionList :=
  .skip (.loop (fun os _ _ => justified_optionEntry os) [])

theorem justified_options : JustifiedAt c options :=
  .ask (.ite (fun _ => justified_optionList) fun _ => .pure _)

/-! ## Lists of numbers -/

theorem justified_numberOrRange : JustifiedAt c numberOrRange := by
  refine .take (.accept (.ask ?_) fun _ => .pure _)
  split
  · exact .take (.ask (.pure _))
  · exact .take (.ask (.pure _))
  · exact .bind (.report (by simp_all [Wanted.kinds])) fun _ _ _ => .pure _

theorem justified_listItems {form : ListForm σ} (hstarts : Kind.symbol .semicolon ∉ form.starts)
    (hitem : ∀ s d, JustifiedAt d (form.item s))
    (hoptions : ∀ read ∈ form.options?, ∀ s d, JustifiedAt d (read s)) (s : Bool × σ) :
    JustifiedAt c (listItems form s) := by
  refine .loop (fun s d _ => ?_) s
  obtain ⟨wanted, s⟩ := s
  refine .ask (.ite (fun hk => ?_) fun hsemi => .ite (fun hk => ?_) fun _ => ?_)
  · dsimp only
    refine .ite (fun _ => .bind (.report ?_) fun _ _ _ => .skip (.pure _)) fun _ => .skip (.pure _)
    rw [hk]
    exact hstarts
  · refine .bind (.report ?_) fun _ _ _ => .pure _
    rcases hk with hk | hk <;> simp [hk, Wanted.kinds]
  · refine .ite (fun _ => .ite (fun _ => ?_) fun hnot => ?_) fun _ =>
      .ite (fun _ => .skip (.pure _)) fun hcomma => ?_
    · exact .bind (hitem s d) fun _ _ _ => .pure _
    · exact .bind (.report hnot) fun _ _ _ => .skip (.pure _)
    · split
      · exact .bind (hoptions _ ‹_› s d) fun _ _ _ => .pure _
      · exact .bind (.report (by simp_all [Wanted.kinds])) fun _ _ _ => .skip (.pure _)

theorem justified_reserved : JustifiedAt c reserved := by
  refine .take (.bind (justified_listItems (by simp [reservedForm]) ?_ nofun _)
    fun _ _ _ => .ask (.pure _))
  intro items d
  refine .ask (.ite (fun _ => .take (.pure _)) fun _ => ?_)
  refine .bind justified_numberOrRange fun n _ _ => ?_
  cases n <;> exact .pure _

theorem justified_extensionList : JustifiedAt c extensionList := by
  refine .take (.bind (justified_listItems (by simp [extensionForm]) ?_ ?_ _)
    fun _ _ _ => .ask (.pure _))
  · intro lists d
    refine .bind justified_numberOrRange fun n _ _ => ?_
    cases n <;> exact .pure _
  · intro read hread lists d
    obtain rfl := Option.some.inj hread
    exact .bind justified_optionList fun _ _ _ => .pure _

/-! ## Fields -/

theorem justified_fieldType : JustifiedAt c fieldType := by
  refine .recursive fieldTypeWith_local _ (fun c ih => .ask (.ask (.ite (fun hmap => ?_) ?_))) c
  · have hk : c.current.kind ≠ .endOfFile := by
      simp only [Cursor.startsMap, Bool.and_eq_true, beq_iff_eq] at hmap
      simp [hmap.1]
    have hinner (d : Cursor) (hd : c.advance.Leads d) : JustifiedAt d fieldType :=
      ih d (hd.remaining_le.trans_lt (remaining_advance_lt_of_kind hk))
    have hstart := Cursor.leads_advance c.advance
    refine .take (.skip (.bind (hinner _ hstart) fun key c₁ hkey => ?_))
    refine .bind (.expect _ _) fun _ c₂ hcomma => ?_
    refine .bind (hinner c₂ (hstart.trans (hkey.leads.trans hcomma.leads))) fun value c₃ _ => ?_
    exact .bind (.expect _ _) fun _ _ _ => .ask (.pure _)
  · exact fun _ => .bind (justified_typeName _) fun _ _ _ => .pure _

theorem justified_fieldLabel : JustifiedAt c fieldLabel := by
  refine .ask ?_
  split
  · exact .take (.pure _)
  · exact .pure _

/-- A number that is no integer is reported behind it. -/
theorem justified_integer (subject : String) {fault : String → Span → SyntaxError}
    (hfault : ∀ t ∈ c.view, c.Justifies (fault t.value t.span)) :
    JustifiedAt c (integer subject fault) := by
  refine .bind_of (.expectAs rfl) fun t d ht => ?_
  obtain ⟨hk, rfl, rfl⟩ := yields_expectAs.1 ht
  dsimp only
  split
  · exact fun e he => .inl he
  · intro e he
    exact (hfault _ (Cursor.current_mem_of_kind (by simp [hk]))).reported he

theorem justified_field : JustifiedAt c field := by
  refine .ask (.bind justified_fieldLabel fun _ _ _ => .bind justified_fieldType fun _ _ _ => ?_)
  refine .bind (.name _) fun _ _ _ => .bind (.expect _ _) fun _ _ _ => ?_
  refine .bind (justified_integer _ fun t ht => ⟨t, ht, rfl, rfl⟩) fun _ _ _ => ?_
  refine .bind justified_options fun _ _ _ => .bind (.tolerate (.expect _ _)) fun _ _ _ => ?_
  exact .ask (.pure _)

/-! ## Enums -/

theorem justified_enumValue : JustifiedAt c enumValue := by
  refine .ask (.bind (.name _) fun _ _ _ => .bind (.expect _ _) fun _ _ _ => ?_)
  refine .bind (justified_integer _ fun t ht => ⟨t, ht, rfl, rfl⟩) fun _ _ _ => ?_
  refine .bind justified_options fun _ _ _ => .bind (.tolerate (.expect _ _)) fun _ _ _ => ?_
  exact .ask (.pure _)

theorem justified_enumStatement (decl : EnumDecl) : JustifiedAt c (enumStatement decl) := by
  refine .ask (.ite (fun _ => justified_optionStatement.added) fun _ => .ask ?_)
  refine .ite (fun _ => ?_) fun _ => justified_enumValue.added
  exact .bind justified_reserved fun _ _ _ => .pure _

theorem justified_enumDecl : JustifiedAt c enumDecl := by
  refine .take (.bind (.name _) fun _ _ _ => .bind (.body ?_ _) fun _ _ _ => .ask (.pure _))
  exact fun decl _ _ _ => justified_enumStatement decl

/-! ## Messages -/

theorem justified_oneofStatement (decl : Oneof) : JustifiedAt c (oneofStatement decl) :=
  .ask (.ite (fun _ => justified_optionStatement.added) fun _ => justified_field.added)

theorem justified_oneof : JustifiedAt c oneof := by
  refine .take (.bind (.name _) fun _ _ _ => .bind (.body ?_ _) fun _ _ _ => .ask (.pure _))
  exact fun decl _ _ _ => justified_oneofStatement decl

theorem justified_extend : JustifiedAt c extend := by
  refine .take (.bind (justified_typeName _) fun _ _ _ => ?_)
  refine .bind (.body ?_ _) fun _ _ _ => .ask (.pure _)
  exact fun decl _ _ _ => justified_field.added

theorem justified_messageStatement {inner : Parser Message} (hinner : JustifiedAt c inner)
    (decl : Message) : JustifiedAt c (messageStatement inner decl) := by
  refine .ask ?_
  split
  · exact hinner.added
  · exact justified_enumDecl.added
  · exact justified_oneof.added
  · exact justified_extend.added
  · exact justified_optionStatement.added
  · exact .bind justified_extensionList fun _ _ _ => .pure _
  · exact .bind justified_reserved fun _ _ _ => .pure _
  · exact justified_field.added

theorem justified_message : JustifiedAt c message := by
  refine .recursive messageWith_local _ (fun c ih => .take (.bind (.name _) fun n c₁ hn => ?_)) c
  obtain ⟨hname, -, rfl⟩ := yields_name.1 hn
  have hlt : c.advance.advance.remaining < c.remaining :=
    (remaining_advance_lt_of_kind (ne_endOfFile_of_isName hname)).trans_le
      (Cursor.remaining_advance_le c)
  refine .bind (.body ?_ _) fun _ _ _ => .ask (.pure _)
  exact fun decl d hd _ => justified_messageStatement (ih d (hd.remaining_le.trans_lt hlt)) decl

/-! ## Services -/

theorem justified_methodType (what : String) : JustifiedAt c (methodType what) := by
  have htype (c₁ : Cursor) (stream : Bool) : JustifiedAt c₁ (do
      let type ← typeName ("rpc " ++ what ++ " type")
      let _ ← expect (.symbol .closeParen) ("after rpc " ++ what ++ " type")
      return (stream, type)) :=
    .bind (justified_typeName _) fun _ _ _ => .bind (.expect _ _) fun _ _ _ => .pure _
  refine .bind (.expect _ _) fun _ c₁ _ => .ask ?_
  exact .ite (fun _ => .skip (htype _ _)) fun _ => htype _ _

theorem justified_methodStatement (options : List OptionDecl)
    (hk : c.current.kind ∉ noStatement) : JustifiedAt c (methodStatement options) := by
  refine .ask (.ite (fun _ => justified_optionStatement.added) fun hoption => ?_)
  refine .bind (.report ?_) fun _ _ _ => .skip (.pure _)
  simp_all [Wanted.kinds, noStatement]

theorem justified_methodEnd (name : String) : JustifiedAt c (methodEnd name) := by
  refine .accept (.block ?_ _) fun _ => .bind (.tolerate (.expectAs rfl)) fun _ _ _ => .pure _
  exact fun options _ _ hk => justified_methodStatement options hk

theorem justified_method : JustifiedAt c method := by
  refine .take (.bind (.name _) fun _ _ _ => .bind (justified_methodType _) fun _ _ _ => ?_)
  refine .bind (.expect _ _) fun _ _ _ => .bind (justified_methodType _) fun _ _ _ => ?_
  exact .bind (justified_methodEnd _) fun _ _ _ => .ask (.pure _)

theorem justified_serviceStatement (decl : Service) (hk : c.current.kind ∉ noStatement) :
    JustifiedAt c (serviceStatement decl) := by
  refine .ask ?_
  split
  · exact justified_optionStatement.added
  · exact justified_method.added
  · refine .bind (.report ?_) fun _ _ _ => .skip (.pure _)
    simp_all [Wanted.kinds, noStatement]

theorem justified_service : JustifiedAt c service := by
  refine .take (.bind (.name _) fun _ _ _ => .bind (.body ?_ _) fun _ _ _ => .ask (.pure _))
  exact fun decl _ _ hk => justified_serviceStatement decl hk

/-! ## Files -/

theorem justified_edition : JustifiedAt c edition := by
  refine .take (.bind (.expect _ _) fun _ _ _ => .bind (.expectAs rfl) fun _ _ _ => ?_)
  exact .bind (.tolerate (.expect _ _)) fun _ _ _ => .ask (.pure _)

theorem justified_package : JustifiedAt c package := by
  refine .take (.bind (justified_dottedName _) fun _ _ _ => ?_)
  exact .bind (.tolerate (.expect _ _)) fun _ _ _ => .ask (.pure _)

theorem justified_importStatement : JustifiedAt c importStatement := by
  refine .take (.bind ?_ fun _ _ _ => .bind (.expectAs rfl) fun _ _ _ => ?_)
  · refine .accept (.pure _) fun _ => .accept (.pure _) fun _ => .pure _
  · exact .bind (.tolerate (.expect _ _)) fun _ _ _ => .ask (.pure _)

/-- A statement that begins at a token and has been read to some point reaches through a token. -/
theorem spanFrom_current (hk : c.current.kind ≠ .endOfFile) (h : c.advance.Leads d) :
    ∃ t ∈ c.view, ∃ u ∈ c.view, d.spanFrom c.current.span = t.span.through u.span := by
  obtain ⟨w, hw⟩ := h.view_suffix
  have hview : c.view = (c.current :: w) ++ d.view := by
    rw [Cursor.view_eq_cons hk, ← hw, List.cons_append]
  obtain ⟨first, last, hfirst, hlast, hspan⟩ :=
    (c.leads_advance.trans h).extent hview (List.cons_ne_nil _ _)
  rw [hview]
  exact ⟨first, List.mem_append_left _ (List.mem_of_head? hfirst), last,
    List.mem_append_left _ (List.mem_of_getLast? hlast), hspan⟩

theorem edition_span :
    Ensures c edition fun e d => c.advance.Leads d ∧ e.span = d.spanFrom c.current.span := by
  refine .take (.next fun _ _ h₁ => .next fun _ _ h₂ => .next fun _ _ h₃ => ?_)
  exact .ask (.pure ⟨(h₁.leads.trans h₂.leads).trans h₃.leads, rfl⟩)

theorem package_span :
    Ensures c package fun p d => c.advance.Leads d ∧ p.span = d.spanFrom c.current.span := by
  refine .take (.next fun _ _ h₁ => .next fun _ _ h₂ => ?_)
  exact .ask (.pure ⟨h₁.leads.trans h₂.leads, rfl⟩)

theorem justified_editionStatement (isFirst : Bool) (file : File)
    (hk : c.current.kind ≠ .endOfFile) : JustifiedAt c (editionStatement isFirst file) := by
  refine .bind_of justified_edition.attempt fun o d ho e he => ?_
  split at he
  · exact .inl he
  · split at he
    · rename_i late
      have hlate : edition.Yields c late d := (yields_attempt_cases ho).2 late rfl
      obtain ⟨hleads, hspan⟩ := edition_span _ _ hlate
      have hjustified : c.Justifies (.lateEdition late.span) := hspan ▸ spanFrom_current hk hleads
      exact hjustified.reported he
    · exact .inl he

theorem justified_packageStatement (file : File) (hk : c.current.kind ≠ .endOfFile) :
    JustifiedAt c (packageStatement file) := by
  refine .bind_of justified_package.attempt fun o d ho e he => ?_
  split at he
  · exact .inl he
  · split at he
    · rename_i package _
      have hpackage : Parser.package.Yields c package d := (yields_attempt_cases ho).2 package rfl
      obtain ⟨hleads, hspan⟩ := package_span _ _ hpackage
      have hjustified : c.Justifies (.repeatedPackage package.name.text package.span) :=
        hspan ▸ spanFrom_current hk hleads
      exact hjustified.reported he
    · exact .inl he

theorem justified_fileStatement (isFirst : Bool) (file : File) :
    JustifiedAt c (fileStatement isFirst file) := by
  refine .ask ?_
  split
  · exact justified_editionStatement isFirst file (by simp_all)
  · exact justified_packageStatement file (by simp_all)
  · exact justified_importStatement.added
  · exact justified_optionStatement.added
  · exact justified_enumDecl.added
  · exact justified_message.added
  · exact justified_service.added
  · exact justified_extend.added
  · exact .skip (.pure _)
  · refine .bind (.report ?_) fun _ _ _ => .skip (.pure _)
    simp_all [Wanted.kinds]

theorem justified_fileStatements (s : Bool × File) : JustifiedAt c (fileStatements s) := by
  refine .loop (fun s d _ => .ask ?_) s
  exact .ite (fun _ => .pure _) fun _ => .bind (justified_fileStatement _ _) fun _ _ _ => .pure _

end Parser

/-- Every error in a list of tokens is justified by it. -/
theorem parse_justified (tokens : List Token) :
    ∀ e ∈ (parse tokens).errors, (Cursor.ofTokens tokens).Justifies e := by
  intro e he
  rcases Parser.justified_fileStatements (true, {}) e he with he | he
  · exact absurd he List.not_mem_nil
  · exact he

end ProtoDecl.Schema
