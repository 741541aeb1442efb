import ProtoDecl.Proofs.Grammar.Files
import ProtoDecl.Proofs.Prefix.Truncate

/-!
# The productions of the grammar, before an end

Every parser of the grammar keeps to the rule of `TruncatesAt`, up to the statements of a file
(`truncates_fileStatement`).  Most proofs follow the parser line by line.  Where a parser looks
further ahead than the next token, it is the word it reads that tells what it saw.
-/

namespace ProtoDecl.Schema.Parser

open Cursor (Continues)

variable {σ : Type} {c : Cursor}

/-! ## Names -/

theorem truncates_segment (subject text : String) : TruncatesAt c (segment subject text) := by
  intro v c' r d' hc hread hd
  rcases reads_segment.1 hread with ⟨hk, rfl, rfl⟩ | ⟨hk, hname, rfl, rfl⟩
  · exact ⟨c, reads_segment.2 (.inl ⟨hc.kind_ne (by simp) hk, rfl, rfl⟩), hc⟩
  · have hd₁ := hd.trans (Cursor.leads_advance c'.advance).view_suffix
    obtain ⟨hdot, hc₁⟩ := hc.read (by simp [hk]) hd₁
    obtain ⟨hcurrent, hc₂⟩ := hc₁.read (ne_endOfFile_of_isName hname) hd
    rw [hdot] at hk
    rw [hcurrent] at hname ⊢
    exact ⟨_, reads_segment.2 (.inr ⟨hk, hname, rfl, rfl⟩), hc₂⟩

theorem truncates_segments (subject text : String) : TruncatesAt c (segments subject text) :=
  .loop (segment_progress subject) (fun text _ _ => truncates_segment subject text) text

theorem truncates_dottedName (subject : String) : TruncatesAt c (dottedName subject) := by
  refine .of_begins (fun _ => parses_dottedName subject) dottedName_begins fun hview => ?_
  refine .current hview (.bind (.name subject) fun first c₁ _ => ?_)
  exact .bind (truncates_segments subject _) fun text c₂ _ => .spanned

theorem truncates_typeName (subject : String) : TruncatesAt c (typeName subject) := by
  refine .of_begins (fun _ => parses_typeName subject) typeName_begins fun hview => ?_
  have hname (c₁ : Cursor) (dot : Option Token) : TruncatesAt c₁ (do
      let first ← name subject
      let text ← segments subject ((if dot.isSome then "." else "") ++ first.text)
      let span ← spanFrom c.current.span
      return (⟨text, span⟩ : Name)) :=
    .bind (.name subject) fun first c₂ _ =>
      .bind (truncates_segments subject _) fun text c₃ _ => .spanned
  exact .current hview (.accept (by simp) (fun _ => hname _ _) fun _ => hname _ _)

/-! ## Options -/

theorem truncates_optionName : TruncatesAt c optionName := by
  refine .accept (by simp) (fun _ => ?_) fun _ => truncates_dottedName _
  refine .bind (truncates_typeName _) fun extension c₁ _ => ?_
  refine .bind (.expectAs (by simp) _) fun _ c₂ _ => ?_
  exact .bind (truncates_segments _ _) fun text c₃ _ => .spanned

theorem constant_begins : (some <$> Grammar.constant).Begins anything := by
  refine .map (.or ?_ (.or ?_ (.or ?_ ?_))) _
  · exact .mono (.map (.map (Rule.token_begins _) _) _) fun _ _ => trivial
  · exact .mono (.map (.map (Rule.token_begins _) _) _) fun _ _ => trivial
  · exact .mono (.map (Rule.token_begins _) _) fun _ _ => trivial
  · exact .mono (.map (Rule.token_begins _) _) fun _ _ => trivial

theorem truncates_optionValue : TruncatesAt c optionValue := by
  refine .of_begins (fun _ => parses_optionValue (F := anything)) constant_begins fun hview => ?_
  refine .kind hview ?_
  split
  · exact .take hview (.pure _)
  · exact .take hview (.pure _)
  · exact .take hview (.pure _)
  · exact .take hview (.pure _)
  · exact .never fun _ _ _ => not_reads_report_bind

theorem truncates_assignment : TruncatesAt c assignment := by
  refine .of_begins (fun _ => parses_assignment (F := anything)) assignment_begins fun hview => ?_
  refine .current hview (.bind truncates_optionName fun name c₁ _ => ?_)
  refine .bind (.expectAs (by simp) _) fun _ c₂ _ => ?_
  exact .bind truncates_optionValue fun value c₃ _ => .spanned

theorem truncates_optionStatement (hview : c.view ≠ []) : TruncatesAt c optionStatement := by
  refine .skip hview (.bind truncates_assignment fun decl c₁ _ => ?_)
  exact .bind (.tolerate (.expectAs (by simp) _)) fun _ c₂ _ => .pure _

theorem truncates_optionSeparator : TruncatesAt c optionSeparator := by
  intro v c' u d' hc hread hd
  rcases reads_optionSeparator.1 hread with ⟨hk, rfl⟩ | ⟨hk, rfl⟩
  · obtain ⟨hcurrent, hnext⟩ := hc.read (by simp [hk]) hd
    rw [hcurrent] at hk
    exact ⟨_, reads_optionSeparator.2 (.inl ⟨hk, rfl⟩), hnext⟩
  · have hends : c.current.kind ∈ endsList := hc.kind_of (P := (· ∈ endsList)) (by decide) hk
    exact ⟨c, reads_optionSeparator.2 (.inr ⟨hends, rfl⟩), hc⟩

theorem truncates_optionEntry (os : List OptionDecl) : TruncatesAt c (optionEntry os) := by
  intro v c' r d' hc hread hd
  rcases reads_optionEntry.1 hread with ⟨hk, rfl, rfl⟩ | ⟨hk, o, c₁', ho, hu, rfl⟩
  · obtain ⟨hcurrent, hnext⟩ := hc.read (by simp [hk]) hd
    rw [hcurrent] at hk
    exact ⟨_, reads_optionEntry.2 (.inl ⟨hk, rfl, rfl⟩), hnext⟩
  · have hd₁ := hd.trans hu.leads.view_suffix
    obtain ⟨c₁, ho₁, hc₁⟩ := truncates_assignment hc ho hd₁
    obtain ⟨d, hu₁, hd'⟩ := truncates_optionSeparator hc₁ hu hd
    obtain ⟨w, hw, ha⟩ := (parses_assignment (F := anything)).sound ho₁
    exact ⟨d, reads_optionEntry.2 (.inr ⟨not_endsList ha hw, o, c₁, ho₁, hu₁, rfl⟩), hd'⟩

theorem truncates_optionList (hview : c.view ≠ []) : TruncatesAt c optionList :=
  .skip hview (.loop optionEntry_progress (fun os _ _ => truncates_optionEntry os) [])

theorem truncates_options : TruncatesAt c options := by
  intro v c' os d' hc hread hd
  replace hread := reads_kind_bind.1 hread
  split at hread
  · rename_i hk
    have hview := hc.view_ne_nil_of_kind (by simp [hk]) (reads_skip_bind.1 hread).leads hd
    obtain ⟨d, hread₁, hd₁⟩ := truncates_optionList hview hc hread hd
    rw [hc.current hview] at hk
    exact ⟨d, reads_kind_bind.2 (by rwa [if_pos hk]), hd₁⟩
  · rename_i hk
    obtain ⟨rfl, rfl⟩ := reads_pure.1 hread
    refine ⟨c, reads_kind_bind.2 ?_, hc⟩
    rw [if_neg (hc.kind_ne (by simp) hk)]
    exact reads_pure.2 ⟨rfl, rfl⟩

/-! ## Lists of numbers -/

theorem truncates_numberOrRange (hview : c.view ≠ []) : TruncatesAt c numberOrRange := by
  refine .take hview (.accept (by simp) (fun _ => ?_) fun _ => .pure _)
  intro v c' a d' hc hread hd
  have hread' := reads_kind_bind.1 hread
  have hview' : c.advance.advance.view ≠ [] := by
    split at hread'
    · rename_i hk
      exact hc.view_ne_nil_of_kind (by simp [hk]) (reads_take_bind.1 hread').leads hd
    · rename_i hk
      exact hc.view_ne_nil_of_kind (by simp [hk]) (reads_take_bind.1 hread').leads hd
    · exact absurd hread' not_reads_report_bind
  refine TruncatesAt.kind hview' ?_ hc hread hd
  split
  · exact .take hview' .spanned
  · exact .take hview' .spanned
  · exact .never fun _ _ _ => not_reads_report_bind

section
variable [Seen σ] {ι κ : Type} {form : ListForm σ} {item : Rule ι} {options : Rule κ}
  {addItem : σ → ι → σ} {addOptions : σ → κ → σ}

theorem truncates_listItems (hform : form.Parses item options addItem addOptions)
    (hitem : ∀ s c, c.view ≠ [] → TruncatesAt c (form.item s))
    (hoptions : ∀ read ∈ form.options?, ∀ s c, c.view ≠ [] → TruncatesAt c (read s))
    (s : Bool × σ) : TruncatesAt c (listItems form s) := by
  refine .loop (listEntry_progress hform) (fun s c₁ _ => ?_) s
  obtain ⟨wanted, s⟩ := s
  intro v c' r d' hc hread hd
  rcases (reads_listEntry hform.starts).1 hread with ⟨rfl, hk, s', hs', rfl⟩ |
    ⟨rfl, hk, read, hmem, s', hs', rfl⟩ | ⟨rfl, hk, rfl, rfl⟩ | ⟨rfl, hk, rfl, rfl⟩
  · have hview := hc.view_ne_nil_of_begins (hform.parses_item s c' hk) (hform.item_begins.map _)
      hs' hd
    rw [hc.current hview] at hk
    obtain ⟨d, hs₁, hd₁⟩ := hitem s c₁ hview hc hs' hd
    exact ⟨d, (reads_listEntry hform.starts).2 (.inl ⟨rfl, hk, s', hs₁, rfl⟩), hd₁⟩
  · have hview := hc.view_ne_nil_of_begins (hform.parses_options read hmem s c' hk)
      (hform.options_begins.map _) hs' hd
    rw [hc.current hview] at hk
    obtain ⟨d, hs₁, hd₁⟩ := hoptions read hmem s c₁ hview hc hs' hd
    exact ⟨d, (reads_listEntry hform.starts).2 (.inr (.inl ⟨rfl, hk, read, hmem, s', hs₁, rfl⟩)),
      hd₁⟩
  · obtain ⟨hcurrent, hnext⟩ := hc.read (by simp [hk]) hd
    rw [hcurrent] at hk
    exact ⟨_, (reads_listEntry hform.starts).2 (.inr (.inr (.inl ⟨rfl, hk, rfl, rfl⟩))), hnext⟩
  · obtain ⟨hcurrent, hnext⟩ := hc.read (by simp [hk]) hd
    rw [hcurrent] at hk
    exact ⟨_, (reads_listEntry hform.starts).2 (.inr (.inr (.inr ⟨rfl, hk, rfl, rfl⟩))), hnext⟩

end

theorem truncates_reserved (hview : c.view ≠ []) : TruncatesAt c reserved := by
  refine .take hview (.bind (truncates_listItems reservedForm_parses ?_ nofun _)
    fun s c₁ _ => .spanned)
  intro items c₁ hview
  refine .kind hview (.ite (fun _ => .take hview (.pure _)) fun _ => ?_)
  refine .bind (truncates_numberOrRange hview) fun n c₂ _ => ?_
  cases n <;> exact .pure _

theorem truncates_extensionList (hview : c.view ≠ []) : TruncatesAt c extensionList := by
  refine .take hview (.bind (truncates_listItems extensionForm_parses ?_ ?_ _)
    fun s c₁ _ => .spanned)
  · intro lists c₁ hview
    refine .bind (truncates_numberOrRange hview) fun n c₂ _ => ?_
    cases n <;> exact .pure _
  · intro read hread lists c₁ hview
    obtain rfl := Option.some.inj hread
    exact .bind (truncates_optionList hview) fun os c₂ _ => .pure _

/-! ## Fields -/

theorem fieldTypeWith_begins (r : Rule FieldType) :
    (Grammar.fieldTypeWith r).Begins anything := by
  refine .or (.mono ((Rule.token_begins _).bind _) fun _ _ => trivial) ?_
  exact .mono (typeName_begins.map _) fun _ _ => trivial

theorem view_advance_ne_nil_of_startsMap (h : c.startsMap = true) : c.advance.view ≠ [] := by
  simp only [Cursor.startsMap, Bool.and_eq_true, beq_iff_eq] at h
  have hview := Cursor.view_eq_cons (c := c) (by simp [h.1])
  rw [peek_one_kind hview] at h
  intro hnil
  simp [hnil] at h

theorem truncates_fieldType : TruncatesAt c fieldType := by
  refine .recursive (I := fun _ => True) fieldTypeWith_local _ (fun c _ ih => ?_) trivial
  refine .of_begins (fun c' => parses_fieldTypeWith parses_fieldType c' trivial)
    (fieldTypeWith_begins _) fun hview => .current hview ?_
  refine .lookahead (fun k l => k == .keyword .map && l == .symbol .openAngle) (fun _ => rfl)
    (fun _ => by simp) (fun c' type d' hmap hread => ?_) (fun hmap => ?_) ?_
  · -- Of a map both tokens looked at are read.
    have hnext := List.length_pos_iff.2 (view_advance_ne_nil_of_startsMap hmap)
    have hle := (reads_skip_bind.1 (reads_take_bind.1 hread)).leads.view_suffix.length_le
    simp only [Cursor.view_advance, List.length_tail] at hnext hle
    omega
  · have hinner (d : Cursor) (hd : c.advance.Leads d) : TruncatesAt d fieldType :=
      ih d (hd.remaining_le.trans_lt ((Cursor.remaining_advance_lt_iff c).2 hview)) trivial
    refine .take hview (.skip (view_advance_ne_nil_of_startsMap hmap) ?_)
    have hstart := Cursor.leads_advance c.advance
    refine .bind (hinner _ hstart) fun key c₁ hkey => ?_
    refine .bind (.expectAs (by simp) _) fun _ c₂ hcomma => ?_
    refine .bind (hinner c₂ (hstart.trans (hkey.leads.trans hcomma.leads))) fun value c₃ _ => ?_
    exact .bind (.expectAs (by simp) _) fun _ c₄ _ => .spanned
  · exact .bind (truncates_typeName _) fun name c₁ _ => .pure _

theorem truncates_fieldLabel : TruncatesAt c fieldLabel := by
  intro v c' l d' hc hread hd
  rcases reads_fieldLabel.1 hread with ⟨label, hlabel, rfl, rfl⟩ | ⟨hlabel, rfl, rfl⟩
  · have hk : c'.current.kind ≠ .endOfFile :=
      ne_endOfFile_of_isName (isName_of_labelOf? (by simp [hlabel]))
    obtain ⟨hcurrent, hnext⟩ := hc.read hk hd
    rw [hcurrent] at hlabel ⊢
    exact ⟨_, reads_fieldLabel.2 (.inl ⟨label, hlabel, rfl, rfl⟩), hnext⟩
  · have hnone : labelOf? c.current.kind = none :=
      hc.kind_of (P := fun k => labelOf? k = none) rfl hlabel
    exact ⟨c, reads_fieldLabel.2 (.inr ⟨hnone, rfl, rfl⟩), hc⟩

theorem truncates_integer (subject : String) (fault : String → Span → SyntaxError) :
    TruncatesAt c (integer subject fault) := by
  refine .bind (.expectAs (by simp) _) fun t c₁ _ => .ite (fun _ => .pure _) fun _ => ?_
  exact .never fun _ _ _ => not_reads_reject

theorem truncates_field : TruncatesAt c field := by
  refine .of_begins (fun _ => parses_field (F := anything)) field_begins fun hview => ?_
  refine .current hview (.bind truncates_fieldLabel fun label c₁ _ => ?_)
  refine .bind truncates_fieldType fun type c₂ _ => .bind (.name _) fun name c₃ _ => ?_
  refine .bind (.expectAs (by simp) _) fun _ c₄ _ => ?_
  refine .bind (truncates_integer _ _) fun number c₅ _ => ?_
  refine .bind truncates_options fun options c₆ _ => ?_
  exact .bind (.tolerate (.expectAs (by simp) _)) fun _ c₇ _ => .spanned

/-! ## Bodies -/

section
variable {ι : Type} [Seen σ] {statement : σ → Parser σ} {item : Rule ι} {add : σ → ι → σ}

theorem truncates_block (closing : String) (hadds : Adds statement item add)
    (h : ∀ s d, c.Leads d → d.view ≠ [] → TruncatesAt d (statement s)) (s : σ) :
    TruncatesAt c (block closing statement s) := by
  refine .loop (blockEntry_progress hadds) (fun s c₁ hc₁ => ?_) s
  intro v c' r d' hc hread hd
  rcases reads_blockEntry.1 hread with ⟨hk, rfl, rfl⟩ | ⟨hk, rfl, rfl⟩ | ⟨hk, s', hs', rfl⟩
  · obtain ⟨hcurrent, hnext⟩ := hc.read (by simp [hk]) hd
    rw [hcurrent] at hk
    exact ⟨_, reads_blockEntry.2 (.inl ⟨hk, rfl, rfl⟩), hnext⟩
  · obtain ⟨hcurrent, hnext⟩ := hc.read (by simp [hk]) hd
    rw [hcurrent] at hk
    exact ⟨_, reads_blockEntry.2 (.inr (.inl ⟨hk, rfl, rfl⟩)), hnext⟩
  · have hview := hc.view_ne_nil_of_begins (hadds.parses s c') (hadds.begins.map _) hs' hd
    obtain ⟨d, hs₁, hd₁⟩ := h s c₁ hc₁ hview hc hs' hd
    rw [hc.current hview] at hk
    exact ⟨d, reads_blockEntry.2 (.inr (.inr ⟨hk, s', hs₁, rfl⟩)), hd₁⟩

theorem truncates_body (opening closing : String) (hadds : Adds statement item add)
    (h : ∀ s d, c.Leads d → d.view ≠ [] → TruncatesAt d (statement s)) (s : σ) :
    TruncatesAt c (body opening closing statement s) := by
  refine .bind (.attempt (.expectAs (by simp) _)) fun o c₁ ho => ?_
  cases o with
  | none => exact .pure _
  | some t => exact truncates_block closing hadds (fun s d hd => h s d (ho.leads.trans hd)) s

end

/-! ## Enums -/

theorem truncates_enumValue : TruncatesAt c enumValue := by
  refine .of_begins (fun _ => parses_enumValue (F := anything)) enumValue_begins fun hview => ?_
  refine .current hview (.bind (.name _) fun name c₁ _ => ?_)
  refine .bind (.expectAs (by simp) _) fun _ c₂ _ => ?_
  refine .bind (truncates_integer _ _) fun number c₃ _ => ?_
  refine .bind truncates_options fun options c₄ _ => ?_
  exact .bind (.tolerate (.expectAs (by simp) _)) fun _ c₅ _ => .spanned

theorem truncates_enumStatement (decl : EnumDecl) (hview : c.view ≠ []) :
    TruncatesAt c (enumStatement decl) := by
  refine .kind hview (.ite (fun _ => (truncates_optionStatement hview).added) fun _ => ?_)
  refine .lookahead (fun k l => k == .keyword .reserved && (l == .number || l == .text))
    (fun _ => rfl) (fun _ => by simp) (fun c' decl' d' hstarts hread => ?_) (fun _ => ?_)
    truncates_enumValue.added
  · have hk : c'.current.kind = .keyword .reserved := by
      simp only [Bool.and_eq_true, beq_iff_eq] at hstarts
      exact hstarts.1
    obtain ⟨r, hr, -⟩ := reads_bind_pure.1 hread
    obtain ⟨w, hw, hr⟩ := (parses_reserved (F := anything) hk).sound hr
    -- Behind the keyword there is at least one item.
    obtain ⟨t, v, _, rfl, -, hv⟩ := (Rule.token_one _).of_bind hr
    obtain ⟨u, v, rfl, -⟩ := (reservedForm_parses.item_begins.separated.bind _) v _ hv
    simp only [hw, List.length_append, List.length_cons]
    omega
  · exact .bind (truncates_reserved hview) fun r c₁ _ => .pure _

theorem truncates_enumDecl (hview : c.view ≠ []) : TruncatesAt c enumDecl := by
  refine .take hview (.bind (.name _) fun name c₁ _ => ?_)
  refine .bind (truncates_body _ _ enumStatement_adds ?_ _) fun decl c₂ _ => .spanned
  exact fun decl d _ hview => truncates_enumStatement decl hview

/-! ## Messages -/

theorem truncates_oneofStatement (decl : Oneof) (hview : c.view ≠ []) :
    TruncatesAt c (oneofStatement decl) :=
  .kind hview (.ite (fun _ => (truncates_optionStatement hview).added)
    fun _ => truncates_field.added)

theorem truncates_oneof (hview : c.view ≠ []) : TruncatesAt c oneof := by
  refine .take hview (.bind (.name _) fun name c₁ _ => ?_)
  refine .bind (truncates_body _ _ oneofStatement_adds ?_ _) fun decl c₂ _ => .spanned
  exact fun decl d _ hview => truncates_oneofStatement decl hview

theorem truncates_extend (hview : c.view ≠ []) : TruncatesAt c extend := by
  refine .take hview (.bind (truncates_typeName _) fun extendee c₁ _ => ?_)
  refine .bind (truncates_body _ _ extendStatement_adds ?_ _) fun decl c₂ _ => .spanned
  exact fun decl d _ _ => truncates_field.added

/-- How a statement of a message is classified depends on its own tokens only. -/
theorem classify_item {r : Rule Message} (hr : ∀ w m, r w m → Nested .message w) {w : List Token}
    {i : Grammar.MessageItem} (h : Grammar.messageItem r w i) :
    ∃ kind, ∀ (c : Cursor) (rest : List Token), c.view = w ++ rest → classify c = kind := by
  rcases h with ⟨m, hm, -⟩ | ⟨e, he, -⟩ | ⟨o, ho, -⟩ | ⟨e, he, -⟩ | ⟨o, ho, -⟩ | ⟨e, he, -⟩ |
    ⟨l, hl, -⟩ | ⟨f, hf, -⟩
  · exact ⟨_, fun c rest => classify_message (hr w m hm)⟩
  · exact ⟨_, fun c rest => classify_enum he⟩
  · exact ⟨_, fun c rest => classify_oneof ho⟩
  · exact ⟨_, fun c rest => classify_extend he⟩
  · exact ⟨_, fun c rest => classify_option ho⟩
  · exact ⟨_, fun c rest => classify_extensions he⟩
  · exact ⟨_, fun c rest => classify_reserved hl⟩
  · exact ⟨_, fun c rest => classify_field hf⟩

theorem nested_of_message {w : List Token} {m : Message} (h : Grammar.message w m) :
    Nested .message w := by
  obtain ⟨n, h⟩ := h
  cases n with
  | zero => exact h.elim
  | succ n =>
    rw [Function.iterate_succ_apply'] at h
    exact nested_of_bind h

theorem truncates_messageStatement (hinner : TruncatesAt c message) (decl : Message)
    (hview : c.view ≠ []) : TruncatesAt c (messageStatement message decl) := by
  have hadds := messageStatement_adds (fun _ _ => nested_of_message) parses_message
  refine .look (fun v c' decl' d' hc hread hd => ?_) ?_
  · -- The statement that is read lies in the shorter view, and its own tokens classify it.
    obtain ⟨w, hw, i, hi, -⟩ := (hadds.parses decl c').sound (reads_ask_bind.2 hread)
    obtain ⟨kind, hkind⟩ := classify_item (fun _ _ => nested_of_message) hi
    obtain ⟨rest, hrest⟩ := hd
    rw [← hrest, ← List.append_assoc, hc.view, List.append_cancel_right_eq] at hw
    rw [hkind c rest hw, hkind c' (rest ++ v) (by rw [hc.view, hw, List.append_assoc])]
  · cases classify c with
    | message => exact hinner.added
    | enum => exact (truncates_enumDecl hview).added
    | oneof => exact (truncates_oneof hview).added
    | extend => exact (truncates_extend hview).added
    | option => exact (truncates_optionStatement hview).added
    | extensions => exact .bind (truncates_extensionList hview) fun list c₁ _ => .pure _
    | reserved => exact .bind (truncates_reserved hview) fun r c₁ _ => .pure _
    | field => exact truncates_field.added

theorem truncates_message (hview : c.view ≠ []) : TruncatesAt c message := by
  refine .recursive (I := fun c => c.view ≠ []) messageWith_local _ (fun c hview ih => ?_) hview
  have hprogress : c.advance.remaining < c.remaining :=
    (Cursor.remaining_advance_lt_iff c).2 hview
  refine .take hview (.bind (.name _) fun name c₁ hname => ?_)
  refine .bind (truncates_body _ _
    (messageStatement_adds (fun _ _ => nested_of_message) parses_message) ?_ _)
    fun decl c₂ _ => .spanned
  intro decl d hd hview
  have hlt : d.remaining < c.remaining :=
    (hname.leads.trans hd).remaining_le.trans_lt hprogress
  exact truncates_messageStatement (ih d hlt hview) decl hview

/-! ## Services -/

theorem truncates_methodType (what : String) : TruncatesAt c (methodType what) := by
  have htype (c₁ : Cursor) (stream : Bool) : TruncatesAt c₁ (do
      let type ← typeName ("rpc " ++ what ++ " type")
      let _ ← expect (.symbol .closeParen) ("after rpc " ++ what ++ " type")
      return (stream, type)) :=
    .bind (truncates_typeName _) fun type c₂ _ =>
      .bind (.expectAs (by simp) _) fun _ c₃ _ => .pure _
  refine .bind (.expectAs (by simp) _) fun _ c₁ _ => ?_
  refine .lookahead (fun k l => k == .keyword .stream && (l.isName || l == .symbol .dot))
    (fun _ => rfl) (fun _ => by simp [Kind.isName]) (fun c' type d' _ hread => ?_)
    (fun hstream => .skip ?_ (htype _ true)) (htype c₁ false)
  · -- Behind the mark a type is read, which is at least one token.
    obtain ⟨n, c₂, hn, hread⟩ := reads_bind.1 (reads_skip_bind.1 hread)
    obtain ⟨w, hw, hn⟩ := (parses_typeName _).sound hn
    obtain ⟨t, w, rfl, -⟩ := typeName_begins _ _ hn
    have hle := hread.leads.view_suffix.length_le
    have hadvance := congrArg List.length hw
    simp only [Cursor.view_advance, List.length_tail, List.length_append,
      List.length_cons] at hadvance
    omega
  · intro hnil
    simp [Cursor.current_kind_eq_endOfFile_iff.2 hnil] at hstream

theorem truncates_methodStatement (options : List OptionDecl) (hview : c.view ≠ []) :
    TruncatesAt c (methodStatement options) :=
  .kind hview (.ite (fun _ => (truncates_optionStatement hview).added)
    fun _ => .never fun _ _ _ => not_reads_report_bind)

theorem truncates_methodEnd (name : String) : TruncatesAt c (methodEnd name) := by
  refine .accept (by simp) (fun _ => ?_) fun _ => ?_
  · exact truncates_block _ methodStatement_adds
      (fun options d _ hview => truncates_methodStatement options hview) []
  · exact .bind (.tolerate (.expectAs (by simp) _)) fun _ c₁ _ => .pure _

theorem truncates_method (hview : c.view ≠ []) : TruncatesAt c method := by
  refine .take hview (.bind (.name _) fun name c₁ _ => ?_)
  refine .bind (truncates_methodType _) fun request c₂ _ => ?_
  refine .bind (.expectAs (by simp) _) fun _ c₃ _ => ?_
  refine .bind (truncates_methodType _) fun response c₄ _ => ?_
  exact .bind (truncates_methodEnd _) fun options c₅ _ => .spanned

theorem truncates_serviceStatement (decl : Service) (hview : c.view ≠ []) :
    TruncatesAt c (serviceStatement decl) := by
  refine .kind hview ?_
  split
  · exact (truncates_optionStatement hview).added
  · exact (truncates_method hview).added
  · exact .never fun _ _ _ => not_reads_report_bind

theorem truncates_service (hview : c.view ≠ []) : TruncatesAt c service := by
  refine .take hview (.bind (.name _) fun name c₁ _ => ?_)
  refine .bind (truncates_body _ _ serviceStatement_adds ?_ _) fun decl c₂ _ => .spanned
  exact fun decl d _ hview => truncates_serviceStatement decl hview

/-! ## Files -/

theorem truncates_edition (hview : c.view ≠ []) : TruncatesAt c edition := by
  refine .take hview (.bind (.expectAs (by simp) _) fun _ c₁ _ => ?_)
  refine .bind (.expectAs (by simp) _) fun version c₂ _ => ?_
  exact .bind (.tolerate (.expectAs (by simp) _)) fun _ c₃ _ => .spanned

theorem truncates_package (hview : c.view ≠ []) : TruncatesAt c package := by
  refine .take hview (.bind (truncates_dottedName _) fun name c₁ _ => ?_)
  exact .bind (.tolerate (.expectAs (by simp) _)) fun _ c₂ _ => .spanned

theorem truncates_importModifier : TruncatesAt c importModifier := by
  refine .accept (by simp) (fun _ => .pure _) fun _ => ?_
  exact .accept (by simp) (fun _ => .pure _) fun _ => .pure _

theorem truncates_importStatement (hview : c.view ≠ []) : TruncatesAt c importStatement := by
  refine .take hview (.bind truncates_importModifier fun modifier c₁ _ => ?_)
  refine .bind (.expectAs (by simp) _) fun path c₂ _ => ?_
  exact .bind (.tolerate (.expectAs (by simp) _)) fun _ c₃ _ => .spanned

theorem truncates_editionStatement (isFirst : Bool) (file : File) (hview : c.view ≠ []) :
    TruncatesAt c (editionStatement isFirst file) := by
  refine .bind (.attempt (truncates_edition hview)) fun o c₁ _ => ?_
  refine .ite (fun _ => .pure _) fun _ => ?_
  cases o with
  | none => exact .pure _
  | some late =>
    refine .never fun _ _ _ hread => ?_
    obtain ⟨_, _, hcomplain, -⟩ := reads_bind.1 hread
    exact not_reads_complain hcomplain

theorem truncates_packageStatement (file : File) (hview : c.view ≠ []) :
    TruncatesAt c (packageStatement file) := by
  refine .bind (.attempt (truncates_package hview)) fun o c₁ _ => ?_
  cases o with
  | none => exact .pure _
  | some package =>
    refine .ite (fun _ => .never fun _ _ _ hread => ?_) fun _ => .pure _
    obtain ⟨_, _, hcomplain, -⟩ := reads_bind.1 hread
    exact not_reads_complain hcomplain

theorem truncates_fileStatement (isFirst : Bool) (file : File) :
    TruncatesAt c (fileStatement isFirst file) := by
  refine .of_begins (fun _ => parses_fileStatement isFirst file)
    ((fileItem_begins.satisfying _).map _) fun hview => .kind hview ?_
  split
  · exact truncates_editionStatement isFirst file hview
  · exact truncates_packageStatement file hview
  · exact (truncates_importStatement hview).added
  · exact (truncates_optionStatement hview).added
  · exact (truncates_enumDecl hview).added
  · exact (truncates_message hview).added
  · exact (truncates_service hview).added
  · exact (truncates_extend hview).added
  · exact .skip hview (.pure _)
  · exact .never fun _ _ _ => not_reads_report_bind

end ProtoDecl.Schema.Parser
