import Mathlib.Data.List.Induction
import ProtoDecl.Proofs.Grammar.Parts

/-!
# Reading fields and bodies

Fields, and the declarations that hold nothing but fields, values, options and reserved lists:
enums, groups of alternatives and blocks that extend a message.

A body is read statement by statement, and each statement is added to the declaration.  `Adds` says
that a parser of statements does so by a rule for items; then the whole body is read by the rule for
bodies (`parses_body`), and the declaration is the one that the items make together
(`foldl_addEnumItem` and its like).
-/

namespace ProtoDecl.Schema.Parser

variable {c d : Cursor} {F : Kind → Prop}

/-! ## Fields -/

/-- What may follow a type. -/
def notType (k : Kind) : Prop :=
  k ≠ .symbol .dot ∧ k ≠ .symbol .openAngle

theorem notType_of_isName {k : Kind} (h : k.isName = true) : notType k := by
  constructor <;> rintro rfl <;> simp [Kind.isName] at h

theorem fieldTypeWith_le (r s : Rule FieldType) (h : r.Le s) :
    (Grammar.fieldTypeWith r).Le (Grammar.fieldTypeWith s) :=
  .or (.bind (.refl _) fun _ => .bind (.refl _) fun _ => .bind h fun _ => .bind (.refl _) fun _ =>
    .bind h fun _ => .refl _) (.refl _)

theorem peek_one_kind {t : Token} {w : List Token} (h : c.view = t :: w) :
    (c.peek 1).kind = nextKind w := by
  rw [Cursor.peek_one h]
  cases w with
  | nil => exact Cursor.eof_kind c
  | cons u w => rfl

/-- A dotted name is a name and further segments. -/
theorem dottedName_cons {w : List Token} {n : Name} (h : Grammar.dottedName w n) :
    ∃ t v names, w = t :: v ∧ t.kind.isName = true ∧ Grammar.segment.many v names := by
  obtain ⟨_, _, _, rfl, ⟨_, _, _, rfl, ⟨t, rfl, ht, rfl⟩, rfl, rfl⟩, v, _, _, rfl,
    ⟨names, hnames, rfl⟩, rfl, rfl⟩ := h
  exact ⟨t, v, names, by simp, ht, hnames⟩

theorem typeName_cons {w : List Token} {n : Name} (h : Grammar.typeName w n) :
    ∃ t v, w = t :: v ∧ ((t.kind.isName = true ∧ ∃ names, Grammar.segment.many v names) ∨
      (t.kind = .symbol .dot ∧ ∃ n', Grammar.dottedName v n')) := by
  rcases h with h | ⟨_, v, _, rfl, ⟨t, rfl, ht, rfl⟩, h⟩
  · obtain ⟨t, v, names, rfl, ht, hv⟩ := dottedName_cons h
    exact ⟨t, v, rfl, .inl ⟨ht, names, hv⟩⟩
  · refine ⟨t, v, rfl, .inr ⟨ht, ?_⟩⟩
    obtain ⟨u, _, n', rfl, hn', v, _, text, rfl, ⟨names, hnames, rfl⟩, rfl, rfl⟩ := h
    exact ⟨_, u, _, n', rfl, hn', v, [], _, rfl, ⟨names, hnames, rfl⟩, rfl, rfl⟩

theorem segment_begins : Grammar.segment.Begins (· = .symbol .dot) :=
  (Rule.token_begins _).bind _

/-- A type without arguments does not look like a map: no opening angle follows its first word. -/
theorem not_startsMap {w rest : List Token} {n : Name} (h : Grammar.typeName w n)
    (hview : c.view = w ++ rest) (hrest : notType (nextKind rest)) : c.startsMap = false := by
  obtain ⟨t, v, rfl, ht⟩ := typeName_cons h
  have hcurrent : c.current = t := Cursor.current_of_view hview
  rw [Cursor.startsMap, hcurrent, peek_one_kind hview]
  rcases ht with ⟨-, names, hv⟩ | ⟨ht, -⟩
  · cases hv with
    | nil => simp [beq_false_of_ne hrest.2]
    | cons head _ =>
      obtain ⟨u, v', rfl, hu⟩ := segment_begins _ _ head
      simp [hu]
  · simp [ht]

theorem parses_fieldTypeWith {p : Parser FieldType} {r : Rule FieldType}
    (h : Parses anything notType p r) :
    Parses anything notType (fieldTypeWith p) (Grammar.fieldTypeWith r) := by
  intro c _
  refine .current (.ask (.ite (fun hmap => ?_) (fun _ => ?_) ?_ ?_))
  · have hmap' := hmap
    simp only [Cursor.startsMap, Bool.and_eq_true, beq_iff_eq] at hmap'
    have hview := Cursor.view_eq_cons (c := c) (by simp [hmap'.1])
    have hangle : c.advance.current.kind = .symbol .openAngle := by
      rw [← hmap'.2, Cursor.peek_one hview, Cursor.current_eq, Cursor.eof_advance]
    refine .take hmap'.1 (by simp) (.skip hangle (by simp) ?_)
    refine .bind (h _ trivial) (fun _ => ?_) fun key c₁ _ => ?_
    · exact ((Rule.token_begins _).bind _).offers (by rintro _ rfl; simp [notType])
    refine .expect (by simp) _ (.bind (h _ trivial) (fun _ => ?_) fun value c₂ _ => ?_)
    · exact ((Rule.token_begins _).bind _).offers (by rintro _ rfl; simp [notType])
    refine .expect (by simp) _ (.spanned ?_)
    exact FieldType.seen_eq _ _
  · refine ((parses_typeName _).follow fun _ => And.left).map fun n c₁ _ => .pure ?_
    exact FieldType.seen_eq _ _
  · rintro w b rest ⟨_, _, _, rfl, ⟨t, rfl, ht, rfl⟩, _, v, _, rfl, ⟨u, rfl, hu, rfl⟩, -⟩ hview _
    have hcurrent : c.current = t := Cursor.current_of_view hview
    rw [Cursor.startsMap, hcurrent, peek_one_kind hview]
    simp [ht, hu]
  · rintro w b rest ⟨n, hn, -⟩ hview hF
    simp [not_startsMap hn hview hF]

theorem parses_fieldType : Parses anything notType fieldType Grammar.fieldType :=
  .recursive (I := fun _ => True) fieldTypeWith_local _ fieldTypeWith_le trivial
    (fun _ => trivial) fun _ _ _ => parses_fieldTypeWith

/-- A type begins with the word `map`, a dot, or a name and further segments. -/
theorem fieldType_cons {w : List Token} {type : FieldType} (h : Grammar.fieldType w type) :
    ∃ t v, w = t :: v ∧ (t.kind = .keyword .map ∨ t.kind = .symbol .dot ∨
      (t.kind.isName = true ∧ ∃ names, Grammar.segment.many v names)) := by
  obtain ⟨n, h⟩ := h
  cases n with
  | zero => exact h.elim
  | succ n =>
    rw [Function.iterate_succ_apply'] at h
    rcases h with h | ⟨n, hn, -⟩
    · obtain ⟨t, v, _, rfl, ht, -⟩ := (Rule.token_one _).of_bind h
      exact ⟨t, v, rfl, .inl ht⟩
    · obtain ⟨t, v, rfl, ht | ⟨ht, -⟩⟩ := typeName_cons hn
      · exact ⟨t, v, rfl, .inr (.inr ht)⟩
      · exact ⟨t, v, rfl, .inr (.inl ht)⟩

theorem fieldType_begins :
    Grammar.fieldType.Begins fun k => k.isName = true ∨ k = .symbol .dot := by
  intro w type h
  obtain ⟨t, v, rfl, ht | ht | ⟨ht, -⟩⟩ := fieldType_cons h
  · exact ⟨t, v, rfl, .inl (by rw [ht]; rfl)⟩
  · exact ⟨t, v, rfl, .inr ht⟩
  · exact ⟨t, v, rfl, .inl ht⟩

theorem parses_integer (subject : String) (fault : String → Span → SyntaxError) :
    ParsesAt F c (integer subject fault) Grammar.integer where
  sound hread := by
    obtain ⟨t, c', ht, h⟩ := reads_bind.1 hread
    obtain ⟨hk, rfl, rfl⟩ := reads_expectAs.1 ht
    dsimp only at h
    split at h
    · rename_i hinteger
      obtain ⟨rfl, rfl⟩ := reads_pure.1 h
      have hview := Cursor.view_eq_cons (c := c) (by simp [hk])
      exact ⟨[c.current], hview, ⟨_, ⟨c.current, rfl, hk, rfl⟩, rfl⟩, hinteger⟩
    · exact absurd h not_reads_reject
  complete := by
    rintro w b rest ⟨⟨_, ⟨t, rfl, ht, rfl⟩, rfl⟩, hinteger⟩ hview -
    obtain ⟨rfl, hrest⟩ := Cursor.advance_of_view_cons hview
    refine ⟨numberOf c.current, c.advance, reads_bind.2 ⟨c.current, c.advance, ?_, ?_⟩, hrest, rfl⟩
    · exact reads_expectAs.2 ⟨ht, rfl, rfl⟩
    · rw [if_pos (show (numberOf c.current).integer?.isSome = true from hinteger)]
      exact reads_pure.2 ⟨rfl, rfl⟩

theorem parses_labelledField (label : Option FieldLabel) (start : Span) :
    ParsesAt F c (do
      let type ← fieldType
      let name ← name "field name"
      let _ ← expect (.symbol .equals) "after field name"
      let number ← integer "field number" .fieldNumber
      let options ← options
      tolerate (expect (.symbol .semicolon) "after field declaration")
      return ⟨label, type, name, number, options, ← spanFrom start⟩)
      (Grammar.labelledField (bare label)) := by
  refine .bind (parses_fieldType c trivial) (fun _ => ?_) fun type c₁ _ => ?_
  · exact (name_begins.bind _).offers fun _ => notType_of_isName
  refine .seq (parses_name _) fun n c₂ _ => ?_
  refine .expect (by simp) _ (.seq (parses_integer _ _) fun number c₃ _ => ?_)
  refine .bind parses_options (fun _ => ?_) fun options c₄ _ => ?_
  · exact ((Rule.token_begins _).bind _).offers (by rintro _ rfl; exact nofun)
  exact .close (by simp) (.spanned rfl)

theorem labelledField_begins (label : Option FieldLabel) :
    (Grammar.labelledField label).Begins fun k => k.isName = true ∨ k = .symbol .dot :=
  fieldType_begins.bind _

theorem fieldLabel_iff {w : List Token} {l : FieldLabel} :
    Grammar.fieldLabel w l ↔ ∃ t label, w = [t] ∧ labelOf? t.kind = some label ∧
      l = ⟨label, nowhere⟩ := by
  constructor
  · rintro (⟨_, ⟨t, rfl, ht, rfl⟩, rfl⟩ | ⟨_, ⟨t, rfl, ht, rfl⟩, rfl⟩ | ⟨_, ⟨t, rfl, ht, rfl⟩, rfl⟩)
    all_goals exact ⟨t, _, rfl, by rw [ht]; rfl, rfl⟩
  · rintro ⟨t, label, rfl, ht, rfl⟩
    unfold labelOf? at ht
    split at ht <;> cases ht
    · exact .inl ⟨_, ⟨t, rfl, ‹_›, rfl⟩, rfl⟩
    · exact .inr (.inl ⟨_, ⟨t, rfl, ‹_›, rfl⟩, rfl⟩)
    · exact .inr (.inr ⟨_, ⟨t, rfl, ‹_›, rfl⟩, rfl⟩)

theorem fieldLabel_begins : Grammar.fieldLabel.Begins fun k => (labelOf? k).isSome = true := by
  intro w l h
  obtain ⟨t, label, rfl, ht, -⟩ := fieldLabel_iff.1 h
  exact ⟨t, [], rfl, by simp [ht]⟩

theorem isName_of_labelOf? {k : Kind} (h : (labelOf? k).isSome = true) : k.isName = true := by
  unfold labelOf? at h
  split at h
  · rfl
  · rfl
  · rfl
  · simp at h

theorem field_begins : Grammar.field.Begins fun k => k.isName = true ∨ k = .symbol .dot := by
  refine .or ((fieldLabel_begins.mono fun _ h => .inl (isName_of_labelOf? h)).bind _) ?_
  exact fun w f h => labelledField_begins none w f h.1

theorem reads_fieldLabel {l : Option FieldLabel} :
    fieldLabel.Reads c l d ↔
      (∃ label, labelOf? c.current.kind = some label ∧ l = some ⟨label, c.current.span⟩ ∧
        d = c.advance) ∨
      (labelOf? c.current.kind = none ∧ l = none ∧ d = c) := by
  unfold fieldLabel
  rw [reads_kind_bind]
  split
  · simp [*, reads_take_bind, reads_pure]
  · simp [*, reads_pure]

theorem parses_field : ParsesAt F c field Grammar.field := by
  refine .current ⟨fun hread => ?_, ?_⟩
  · obtain ⟨l, c₁, hl, h⟩ := reads_bind.1 hread
    obtain ⟨v, hv, hfield⟩ := (parses_labelledField (F := anything) l c.current.span).sound h
    rcases reads_fieldLabel.1 hl with ⟨label, hlabel, rfl, rfl⟩ | ⟨hlabel, rfl, rfl⟩
    · have hk : c.current.kind ≠ .endOfFile := by
        intro hend
        simp [hend, labelOf?] at hlabel
      refine ⟨c.current :: v, by rw [Cursor.view_eq_cons hk, hv]; rfl, .inl ?_⟩
      exact ⟨[c.current], v, _, rfl, fieldLabel_iff.2 ⟨_, label, rfl, hlabel, rfl⟩, hfield⟩
    · refine ⟨v, hv, .inr ⟨hfield, fun t ht => ?_⟩⟩
      obtain ⟨t', v', rfl, -⟩ := labelledField_begins _ _ _ hfield
      cases ht
      rw [← Cursor.current_of_view hv]
      simp [hlabel]
  · rintro w f rest (⟨_, v, _, rfl, hl, hfield⟩ | ⟨hfield, hhead⟩) hview -
    · obtain ⟨t, label, rfl, ht, rfl⟩ := fieldLabel_iff.1 hl
      obtain ⟨rfl, hrest⟩ := Cursor.advance_of_view_cons hview
      obtain ⟨f', d, hread, hd⟩ := (parses_labelledField (F := anything)
        (some ⟨label, c.current.span⟩) c.current.span).complete hfield hrest trivial
      exact ⟨f', d, reads_bind.2 ⟨_, _, reads_fieldLabel.2 (.inl ⟨label, ht, rfl, rfl⟩), hread⟩, hd⟩
    · obtain ⟨f', d, hread, hd⟩ := (parses_labelledField (F := anything) none
        c.current.span).complete hfield hview trivial
      have hlabel : labelOf? c.current.kind = none := by
        obtain ⟨t, v, rfl, -⟩ := labelledField_begins _ _ _ hfield
        rw [Cursor.current_of_view hview]
        simpa using hhead t rfl
      exact ⟨f', d, reads_bind.2 ⟨_, _, reads_fieldLabel.2 (.inr ⟨hlabel, rfl, rfl⟩), hread⟩, hd⟩

/-! ## Bodies -/

section
variable {σ ι : Type} [Seen σ] {statement : σ → Parser σ} {item : Rule ι} {add : σ → ι → σ}
  {closing opening : String}

/-- The kinds of token that a loop over statements deals with itself. -/
def noStatement : List Kind :=
  [.symbol .closeBrace, .endOfFile, .symbol .semicolon]

omit [Seen σ] in
theorem reads_blockEntry {s : σ} {r : Round σ} :
    (blockEntry closing statement s).Reads c r d ↔
      (c.current.kind = .symbol .closeBrace ∧ r = .done s ∧ d = c.advance) ∨
      (c.current.kind = .symbol .semicolon ∧ r = .again s ∧ d = c.advance) ∨
      (c.current.kind ∉ noStatement ∧ ∃ s', (statement s).Reads c s' d ∧ r = .again s') := by
  unfold blockEntry
  rw [reads_kind_bind]
  split
  · simp [*, noStatement, reads_skip_bind, reads_pure]
  · simp [*, noStatement, not_reads_report_bind]
  · simp [*, noStatement, reads_skip_bind, reads_pure]
  · rw [reads_bind_pure]
    simp_all [noStatement]

/-- That statements are read by a rule for items, and each is added to the state. -/
structure Adds (statement : σ → Parser σ) (item : Rule ι) (add : σ → ι → σ) : Prop where
  begins : item.Begins (· ∉ noStatement)
  parses : ∀ s c, ParsesAt anything c (statement s) (add (bare s) <$> item)

theorem blockEntry_progress (h : Adds statement item add) (s : σ) (c : Cursor) (s' : σ) (d : Cursor)
    (hround : (blockEntry closing statement s).Reads c (.again s') d) :
    d.remaining < c.remaining := by
  rcases reads_blockEntry.1 hround with ⟨-, hr, -⟩ | ⟨hk, -, rfl⟩ | ⟨-, s₁, hs₁, -⟩
  · cases hr
  · exact remaining_advance_lt_of_kind (by simp [hk])
  · exact (h.parses s c).progress (h.begins.map _) hs₁

theorem parses_block (h : Adds statement item add) (s : σ) :
    ParsesAt F c (block closing statement s) (do
      let items ← Rule.many (some <$> item <|> (fun _ => none) <$> Rule.symbol .semicolon)
      let _ ← Rule.symbol .closeBrace
      return (items.filterMap id).foldl add (bare s)) where
  sound hread := by
    simp only [Rule.symbol, Rule.bind_token_iff]
    refine Reads.loop_induct
      (P := fun s c s' d => ∃ w, c.view = w ++ d.view ∧ ∃ u items t,
        Rule.many (some <$> item <|> (fun _ => none) <$> Rule.symbol .semicolon) u items ∧
        t.kind = .symbol .closeBrace ∧ w = u ++ [t] ∧
        bare s' = (items.filterMap id).foldl add (bare s))
      (blockEntry_progress h) ?_ ?_ hread
    · intro s c s' d hlast
      rcases reads_blockEntry.1 hlast with ⟨hk, hr, rfl⟩ | ⟨-, hr, -⟩ | ⟨-, _, -, hr⟩
      · cases hr
        have hview := Cursor.view_eq_cons (c := c) (by simp [hk])
        exact ⟨[c.current], hview, [], [], c.current, .nil, hk, rfl, rfl⟩
      · cases hr
      · cases hr
    · rintro s c s₁ c₁ s' d hround ⟨w, hw, u, items, t, hitems, ht, rfl, hs'⟩
      rcases reads_blockEntry.1 hround with ⟨-, hr, -⟩ | ⟨hk, hr, rfl⟩ | ⟨-, s₂, hs₂, hr⟩
      · cases hr
      · cases hr
        refine ⟨c.current :: u ++ [t], ?_, c.current :: u, none :: items, t, ?_, ht, rfl, hs'⟩
        · rw [Cursor.view_eq_cons (by simp [hk]), hw]
          rfl
        · exact .cons (.inr ⟨_, ⟨c.current, rfl, hk, rfl⟩, rfl⟩) hitems
      · cases hr
        obtain ⟨v, hv, i, hi, hadd⟩ := (h.parses s c).sound hs₂
        refine ⟨v ++ u ++ [t], by rw [hv, hw]; simp, v ++ u, some i :: items, t, ?_, ht, rfl, ?_⟩
        · exact .cons (.inl ⟨i, hi, rfl⟩) hitems
        · simpa [hadd] using hs'
  complete := by
    intro w b rest hw hview _
    obtain ⟨u, items, t, hitems, ht, rfl, rfl⟩ := Rule.bind_token_iff.1 hw
    clear hw
    induction hitems generalizing s c with
    | nil =>
      obtain ⟨rfl, hrest⟩ := Cursor.advance_of_view_cons hview
      have hlast : (blockEntry closing statement s).Reads c (.done s) c.advance :=
        reads_blockEntry.2 (.inl ⟨ht, rfl, rfl⟩)
      exact ⟨s, _, (reads_loop (blockEntry_progress h)).2 (.inl hlast), hrest, rfl⟩
    | cons head _ ih =>
      rw [List.append_assoc, List.append_assoc] at hview
      rcases head with ⟨i, hi, rfl⟩ | ⟨_, ⟨semicolon, rfl, hk, rfl⟩, rfl⟩
      · obtain ⟨s₁, c₁, hs₁, hc₁, hadd⟩ := (h.parses s c).complete ⟨i, hi, rfl⟩ hview trivial
        obtain ⟨s', d, hread, hd, hs'⟩ := ih s₁ (by rw [hc₁, List.append_assoc])
        have hround : (blockEntry closing statement s).Reads c (.again s₁) c₁ :=
          reads_blockEntry.2 (.inr (.inr ⟨current_kind_of_begins h.begins hi hview, s₁, hs₁, rfl⟩))
        refine ⟨s', d, (reads_loop (blockEntry_progress h)).2 (.inr ⟨_, _, hround, hread⟩), hd, ?_⟩
        simp [hs', hadd]
      · obtain ⟨rfl, hrest⟩ := Cursor.advance_of_view_cons hview
        obtain ⟨s', d, hread, hd, hs'⟩ := ih s (by rw [hrest]; simp)
        have hround : (blockEntry closing statement s).Reads c (.again s) c.advance :=
          reads_blockEntry.2 (.inr (.inl ⟨hk, rfl, rfl⟩))
        exact ⟨s', d, (reads_loop (blockEntry_progress h)).2 (.inr ⟨_, _, hround, hread⟩), hd, hs'⟩

theorem parses_body (h : Adds statement item add) (s : σ) :
    ParsesAt F c (body opening closing statement s)
      ((fun items => items.foldl add (bare s)) <$> Grammar.body item) := by
  simp only [Grammar.body, Rule.map_bind, Rule.map_pure]
  have hopen : ParsesAt F c
      (expect (.symbol .openBrace) opening >>= fun _ => block closing statement s)
      (Rule.symbol .openBrace >>= fun _ => do
        let items ← Rule.many (some <$> item <|> (fun _ => none) <$> Rule.symbol .semicolon)
        let _ ← Rule.symbol .closeBrace
        return (items.filterMap id).foldl add (bare s)) :=
    .expect (by simp) opening (parses_block h s)
  -- A body that is read without reports has its opening brace.
  refine ⟨fun hread => ?_, fun hw hview hF => ?_⟩
  · obtain ⟨o, c₁, ho, hread⟩ := reads_bind.1 hread
    obtain ⟨t, rfl, ht⟩ := reads_attempt.1 ho
    exact hopen.sound (reads_bind.2 ⟨t, c₁, ht, hread⟩)
  · obtain ⟨s', d, hread, hd⟩ := hopen.complete hw hview hF
    obtain ⟨t, c₁, ht, hread⟩ := reads_bind.1 hread
    exact ⟨s', d, reads_bind.2 ⟨some t, c₁, reads_attempt.2 ⟨t, rfl, ht⟩, hread⟩, hd⟩

end

/-! ## Enums -/

theorem parses_enumValue : ParsesAt F c enumValue Grammar.enumValue := by
  refine .current (.seq (parses_name _) fun n c₁ _ => ?_)
  refine .expect (by simp) _ (.seq (parses_integer _ _) fun number c₂ _ => ?_)
  refine .bind parses_options (fun _ => ?_) fun options c₃ _ => ?_
  · exact ((Rule.token_begins _).bind _).offers (by rintro _ rfl; exact nofun)
  exact .close (by simp) (.spanned rfl)

theorem enumValue_begins : Grammar.enumValue.Begins (·.isName = true) :=
  name_begins.bind _

/-- Adds an item to an enum. -/
def addEnumItem (decl : EnumDecl) : Grammar.EnumItem → EnumDecl
  | .option o => { decl with options := decl.options ++ [o] }
  | .reserved r => { decl with reserved := decl.reserved ++ [r] }
  | .value v => { decl with values := decl.values ++ [v] }

/-- Items added one by one make the tree of all of them. -/
theorem foldl_addEnumItem (n : Name) (items : List Grammar.EnumItem) :
    items.foldl addEnumItem ⟨n, [], [], [], nowhere⟩ = Grammar.EnumDecl.ofItems n items := by
  induction items using List.reverseRecOn with
  | nil => rfl
  | append_singleton items item ih =>
    rw [List.foldl_append, ih]
    cases item <;> simp [addEnumItem, Grammar.EnumDecl.ofItems]

theorem name_one : Grammar.name.One (·.isName = true) := by
  rintro w n ⟨_, _, _, rfl, ⟨t, rfl, ht, rfl⟩, rfl, rfl⟩
  exact ⟨t, rfl, ht⟩

theorem startsReserved_iff {t : Token} {w : List Token} (h : c.view = t :: w) :
    c.startsReserved = true ↔ t.kind = .keyword .reserved ∧
      (nextKind w = .number ∨ nextKind w = .text) := by
  rw [Cursor.startsReserved, Cursor.current_of_view h, peek_one_kind h]
  simp

theorem startsReserved_of_reserved {w rest : List Token} {r : Reserved} (h : Grammar.reserved w r)
    (hview : c.view = w ++ rest) : c.startsReserved = true := by
  obtain ⟨t, v, _, rfl, ht, hv⟩ := (Rule.token_one _).of_bind h
  obtain ⟨u, v', rfl, hu⟩ := (reservedForm_parses.item_begins.separated.bind _) v r hv
  refine (startsReserved_iff hview).2 ⟨ht, ?_⟩
  simpa [reservedForm] using hu

theorem not_noStatement {k : Kind} (h : k.isName = true ∨ k = .symbol .dot) : k ∉ noStatement := by
  rintro hmem
  simp only [noStatement, List.mem_cons, List.not_mem_nil, or_false] at hmem
  rcases hmem with rfl | rfl | rfl <;> simp [Kind.isName] at h

theorem begins_statement {α : Type} {r : Rule α} {k : Keyword} (h : r.Begins (· = .keyword k)) :
    r.Begins (· ∉ noStatement) :=
  h.mono (by rintro _ rfl; exact not_noStatement (.inl rfl))

theorem enumStatement_adds : Adds enumStatement Grammar.enumItem addEnumItem where
  begins := by
    refine .or ((begins_statement optionStatement_begins).map _)
      (.or ((begins_statement reserved_begins).map _) (.map ?_ _))
    exact enumValue_begins.notAt.mono fun _ hk => not_noStatement (.inl hk.1)
  parses decl c := by
    rw [Grammar.enumItem, Rule.map_or, Rule.map_or, Rule.map_map, Rule.map_map, Rule.map_map]
    refine .kind (.ite (fun hk => ?_) (fun hk => .ask (.ite (fun hr => ?_) (fun hr => ?_) ?_ ?_))
      ?_ ?_)
    · exact (parses_optionStatement hk).add fun o => by simp [EnumDecl.seen_eq, addEnumItem]
    · have hk : c.current.kind = .keyword .reserved := by
        simp only [Cursor.startsReserved, Bool.and_eq_true, beq_iff_eq] at hr
        exact hr.1
      exact (parses_reserved hk).map fun r c₁ _ => .pure (by simp [EnumDecl.seen_eq, addEnumItem])
    · refine (parses_enumValue.notAt hk).add fun v => ?_
      simp [EnumDecl.seen_eq, addEnumItem]
    · rintro w b rest ⟨r, hr, -⟩ hview _
      exact startsReserved_of_reserved hr hview
    · rintro w b rest ⟨v, hv, -⟩ hview _
      obtain ⟨t, v', _, rfl, -, hv'⟩ := name_one.of_bind hv.1
      obtain ⟨u, v'', rfl, hu⟩ := ((Rule.token_begins _).bind _) v' v hv'
      rw [startsReserved_iff hview]
      simp [hu]
    · rintro w b rest ⟨o, ho, -⟩ hview _
      exact current_kind_of_begins optionStatement_begins ho hview
    · rintro w b rest (⟨r, hr, -⟩ | ⟨v, hv, -⟩) hview _
      · simp [current_kind_of_begins reserved_begins hr hview]
      · exact (current_kind_of_begins enumValue_begins.notAt hv hview).2

theorem enumDecl_begins : Grammar.enumDecl.Begins (· = .keyword .enum) :=
  (Rule.token_begins _).bind _

theorem parses_enumDecl (hk : c.current.kind = .keyword .enum) :
    ParsesAt F c enumDecl Grammar.enumDecl := by
  refine .take hk (by simp) (.seq (parses_name _) fun n c₁ _ => ?_)
  refine (parses_body enumStatement_adds _).finish fun decl items hdecl span => ?_
  exact congrArg (fun d : EnumDecl => { d with span := nowhere })
    (hdecl.trans (foldl_addEnumItem (bare n) items))

/-! ## Alternatives and extensions -/

theorem memberField_begins : Grammar.memberField.Begins
    fun k => (k.isName = true ∨ k = .symbol .dot) ∧ k ≠ .keyword .option :=
  field_begins.notAt

/-- Adds an item to a group of alternatives. -/
def addOneofItem (decl : Oneof) : Grammar.OneofItem → Oneof
  | .option o => { decl with options := decl.options ++ [o] }
  | .field f => { decl with fields := decl.fields ++ [f] }

theorem foldl_addOneofItem (n : Name) (items : List Grammar.OneofItem) :
    items.foldl addOneofItem ⟨n, [], [], nowhere⟩ = Grammar.Oneof.ofItems n items := by
  induction items using List.reverseRecOn with
  | nil => rfl
  | append_singleton items item ih =>
    rw [List.foldl_append, ih]
    cases item <;> simp [addOneofItem, Grammar.Oneof.ofItems]

theorem oneofStatement_adds : Adds oneofStatement Grammar.oneofItem addOneofItem where
  begins := by
    refine .or ((begins_statement optionStatement_begins).map _) (.map ?_ _)
    exact memberField_begins.mono fun _ hk => not_noStatement hk.1
  parses decl c := by
    rw [Grammar.oneofItem, Rule.map_or, Rule.map_map, Rule.map_map]
    refine .kind (.ite (fun hk => ?_) (fun hk => ?_) ?_ ?_)
    · exact (parses_optionStatement hk).add fun o => by simp [Oneof.seen_eq, addOneofItem]
    · exact (parses_field.notAt hk).add fun f => by simp [Oneof.seen_eq, addOneofItem]
    · rintro w b rest ⟨o, ho, -⟩ hview _
      exact current_kind_of_begins optionStatement_begins ho hview
    · rintro w b rest ⟨f, hf, -⟩ hview _
      exact (current_kind_of_begins memberField_begins hf hview).2

theorem oneof_begins : Grammar.oneof.Begins (· = .keyword .oneof) :=
  (Rule.token_begins _).bind _

theorem parses_oneof (hk : c.current.kind = .keyword .oneof) :
    ParsesAt F c oneof Grammar.oneof := by
  refine .take hk (by simp) (.seq (parses_name _) fun n c₁ _ => ?_)
  refine (parses_body oneofStatement_adds _).finish fun decl items hdecl span => ?_
  exact congrArg (fun d : Oneof => { d with span := nowhere })
    (hdecl.trans (foldl_addOneofItem (bare n) items))

theorem extendStatement_adds : Adds extendStatement Grammar.field
    fun decl f => { decl with fields := decl.fields ++ [f] } where
  begins := field_begins.mono fun _ => not_noStatement
  parses decl c := parses_field.add fun f => by simp [Extend.seen_eq]

theorem foldl_addField (n : Name) (fields : List Field) :
    fields.foldl (fun decl f => { decl with fields := decl.fields ++ [f] }) ⟨n, [], nowhere⟩ =
      (⟨n, fields, nowhere⟩ : Extend) := by
  induction fields using List.reverseRecOn with
  | nil => rfl
  | append_singleton fields f ih => rw [List.foldl_append, ih]; rfl

theorem extend_begins : Grammar.extend.Begins (· = .keyword .extend) :=
  (Rule.token_begins _).bind _

theorem body_begins {ι : Type} (item : Rule ι) :
    (Grammar.body item).Begins (· = .symbol .openBrace) :=
  (Rule.token_begins _).bind _

theorem parses_extend (hk : c.current.kind = .keyword .extend) :
    ParsesAt F c extend Grammar.extend := by
  refine .take hk (by simp) (.bind (parses_typeName _) (fun _ => ?_) fun n c₁ _ => ?_)
  · exact ((body_begins _).bind _).offers (by rintro _ rfl; exact nofun)
  refine (parses_body extendStatement_adds _).finish fun decl fields hdecl span => ?_
  exact congrArg (fun d : Extend => { d with span := nowhere })
    (hdecl.trans (foldl_addField (bare n) fields))

end ProtoDecl.Schema.Parser
