import ProtoDecl.Proofs.Grammar.Language
import ProtoDecl.Proofs.Grammar.Parses

/-!
# Reading names, options and lists of numbers

The parsers of the parts that declarations are made of, each with its rule.

* Names: a dotted name is read as far as dots go, so no dot may follow it.
* Options: a list of options is read from the left, the grammar divides it at its commas.  The two
  views are joined by `optionTail_iff`.
* Lists of numbers: the loop that reads one knows two states, whether an item is wanted or not.
  `ListRun` is the language of that loop, and `listRun_iff` says that it is what the grammar says.
-/

namespace ProtoDecl.Schema.Parser

variable {c d : Cursor} {F : Kind → Prop}

/-! ## Names -/

/-- What may follow a dotted name. -/
def notDot (k : Kind) : Prop :=
  k ≠ .symbol .dot

theorem notDot_of_isName {k : Kind} (h : k.isName = true) : notDot k := by
  rintro rfl
  simp [Kind.isName] at h

theorem name_begins : Grammar.name.Begins (·.isName = true) :=
  (Rule.terminal_begins _).bind _

theorem dottedName_begins : Grammar.dottedName.Begins (·.isName = true) :=
  name_begins.bind _

theorem typeName_begins :
    Grammar.typeName.Begins fun k => k.isName = true ∨ k = .symbol .dot :=
  (dottedName_begins.mono fun _ => .inl).or (((Rule.token_begins _).mono fun _ => .inr).bind _)

theorem parses_name (subject : String) : ParsesAt F c (name subject) Grammar.name where
  sound hread := by
    obtain ⟨hname, rfl, rfl⟩ := reads_name.1 hread
    refine ⟨[c.current], Cursor.view_eq_cons (ne_endOfFile_of_isName hname), ?_⟩
    exact ⟨[c.current], [], _, rfl, ⟨c.current, rfl, hname, rfl⟩, rfl, rfl⟩
  complete := by
    rintro w b rest ⟨u, v, t, rfl, ⟨t', rfl, hname, rfl⟩, rfl, rfl⟩ hview -
    obtain ⟨rfl, hrest⟩ := Cursor.advance_of_view_cons hview
    exact ⟨_, _, reads_name.2 ⟨hname, rfl, rfl⟩, hrest, rfl⟩

theorem reads_segment {subject text : String} {r : Round String} :
    (segment subject text).Reads c r d ↔
      (c.current.kind ≠ .symbol .dot ∧ r = .done text ∧ d = c) ∨
        (c.current.kind = .symbol .dot ∧ c.advance.current.kind.isName = true ∧
          r = .again (text ++ "." ++ c.advance.current.value) ∧ d = c.advance.advance) := by
  unfold segment
  rw [reads_accept_bind]
  split
  · rw [Parser.current, reads_ask_bind]
    split
    · simp [*, reads_skip_bind, reads_pure]
    · simp [*, not_reads_report_bind]
  · simp [*, reads_pure]

theorem segment_progress (subject text : String) (c : Cursor) (text' : String) (d : Cursor)
    (h : (segment subject text).Reads c (.again text') d) : d.remaining < c.remaining := by
  rcases reads_segment.1 h with ⟨-, hr, -⟩ | ⟨hk, -, -, rfl⟩
  · cases hr
  · refine Nat.lt_of_le_of_lt (Cursor.remaining_advance_le _) ?_
    exact remaining_advance_lt_of_kind (by simp [hk])

theorem parses_segments (subject text : String) :
    ParsesAt notDot c (segments subject text) (Grammar.segments text) where
  sound hread := by
    refine Reads.loop_induct
      (P := fun text c text' d => ∃ w, c.view = w ++ d.view ∧ Grammar.segments text w text')
      (segment_progress subject) ?_ ?_ hread
    · intro text c text' d hlast
      rcases reads_segment.1 hlast with ⟨-, hr, rfl⟩ | ⟨-, -, hr, -⟩
      · cases hr
        exact ⟨[], rfl, [], .nil, rfl⟩
      · cases hr
    · rintro text c text₁ c₁ text' d hround ⟨w, hw, names, hnames, rfl⟩
      rcases reads_segment.1 hround with ⟨-, hr, -⟩ | ⟨hk, hname, hr, rfl⟩
      · cases hr
      · cases hr
        refine ⟨[c.current, c.advance.current] ++ w, ?_,
          ⟨c.advance.current.value, nowhere⟩ :: names, .cons ?_ hnames, rfl⟩
        · rw [Cursor.view_eq_cons (by simp [hk]),
            Cursor.view_eq_cons (ne_endOfFile_of_isName hname), hw]
          rfl
        · exact ⟨[c.current], [c.advance.current], _, rfl, ⟨_, rfl, hk, rfl⟩, _, [], _, rfl,
            ⟨_, rfl, hname, rfl⟩, rfl, rfl⟩
  complete := by
    rintro w b rest ⟨names, hnames, rfl⟩ hview hF
    induction hnames generalizing text c with
    | nil =>
      have hk : c.current.kind ≠ .symbol .dot := by
        rw [Cursor.current_kind, hview]
        exact hF
      have hlast : (segment subject text).Reads c (.done text) c :=
        reads_segment.2 (.inl ⟨hk, rfl, rfl⟩)
      exact ⟨text, c, (reads_loop (segment_progress subject)).2 (.inl hlast), hview, rfl⟩
    | cons head tail ih =>
      obtain ⟨_, _, _, rfl, ⟨dot, rfl, hdot, rfl⟩, _, _, _, rfl, ⟨t, rfl, ht, rfl⟩, rfl, rfl⟩ :=
        head
      obtain ⟨rfl, hview₁⟩ := Cursor.advance_of_view_cons hview
      obtain ⟨rfl, hview₂⟩ := Cursor.advance_of_view_cons hview₁
      obtain ⟨text', d, hrest, hd⟩ := ih _ hview₂
      have hround : (segment subject text).Reads c
          (.again (text ++ "." ++ c.advance.current.value)) c.advance.advance :=
        reads_segment.2 (.inr ⟨hdot, ht, rfl, rfl⟩)
      exact ⟨text', d, (reads_loop (segment_progress subject)).2 (.inr ⟨_, _, hround, hrest⟩), hd⟩

theorem parses_dottedName (subject : String) :
    ParsesAt notDot c (dottedName subject) Grammar.dottedName := by
  refine .current (.seq (parses_name subject) fun n c₁ _ => ?_)
  refine .bind (parses_segments subject n.text) (fun _ => Rule.offers_pure _ fun _ => id)
    fun text c₂ _ => ?_
  exact .spanned rfl

theorem parses_typeName (subject : String) :
    ParsesAt notDot c (typeName subject) Grammar.typeName := by
  refine .current (.accept (by simp) (fun _ => ?_) (fun _ => ?_) ?_)
  · refine .seq (parses_name subject) fun n c₁ _ => ?_
    refine .bind (parses_segments subject _) (fun _ => Rule.offers_pure _ fun _ => id)
      fun text c₂ _ => ?_
    exact .spanned rfl
  · refine .seq (parses_name subject) fun n c₁ _ => ?_
    refine .bind (parses_segments subject _) (fun _ => Rule.offers_pure _ fun _ => id)
      fun text c₂ _ => ?_
    exact .spanned rfl
  · exact dottedName_begins.offers fun _ => notDot_of_isName

/-! ## Options -/

theorem parses_optionName : ParsesAt notDot c optionName Grammar.optionName := by
  refine .accept (by simp) (fun _ => ?_) (fun _ => parses_dottedName _) ?_
  · refine .bind (parses_typeName _) (fun _ => ?_) fun n c₁ _ => ?_
    · exact ((Rule.token_begins _).bind _).offers (by rintro _ rfl; exact nofun)
    refine .expect (by simp) _ ?_
    refine .bind (parses_segments _ _) (fun _ => Rule.offers_pure _ fun _ => id) fun text c₃ _ => ?_
    exact .spanned rfl
  · exact dottedName_begins.offers fun k hk hparen => by simp [hparen, Kind.isName] at hk

theorem parses_optionValue : ParsesAt F c optionValue (some <$> Grammar.constant) := by
  simp only [Grammar.constant, Grammar.text, Grammar.number, Rule.map_or, Rule.map_map]
  refine Decides.all (.or (.kind ((Rule.token_begins _).map _) fun hk => ?_)
    (.or (.kind ((Rule.token_begins _).map _) fun hk => ?_)
    (.or (.kind ((Rule.token_begins _).map _) fun hk => ?_)
    (.kind ((Rule.token_begins _).map _) fun hk => ?_)))) fun hk a d => ?_
  · refine .kind ?_
    rw [hk]
    exact .taken hk (by simp) rfl
  · refine .kind ?_
    rw [hk]
    exact .taken hk (by simp) rfl
  · refine .kind ?_
    rw [hk]
    exact .taken hk (by simp) rfl
  · refine .kind ?_
    rw [hk]
    exact .taken hk (by simp) rfl
  · rintro hread
    replace hread := reads_kind_bind.1 hread
    split at hread <;> simp_all [not_reads_report_bind]

theorem optionName_begins :
    Grammar.optionName.Begins fun k => k.isName = true ∨ k = .symbol .openParen :=
  (dottedName_begins.mono fun _ => .inl).or (((Rule.token_begins _).mono fun _ => .inr).bind _)

theorem assignment_begins :
    Grammar.assignment.Begins fun k => k.isName = true ∨ k = .symbol .openParen :=
  optionName_begins.bind _

theorem parses_assignment : ParsesAt F c assignment Grammar.assignment := by
  refine .current (.bind parses_optionName (fun _ => ?_) fun n c₁ _ => ?_)
  · exact ((Rule.token_begins _).bind _).offers (by rintro _ rfl; exact nofun)
  refine .expect (by simp) _ ?_
  exact .seq parses_optionValue fun v c₃ _ => .spanned rfl

theorem optionStatement_begins : Grammar.optionStatement.Begins (· = .keyword .option) :=
  (Rule.token_begins _).bind _

theorem parses_optionStatement (hk : c.current.kind = .keyword .option) :
    ParsesAt F c optionStatement Grammar.optionStatement := by
  refine .skip hk (by simp) (.seq parses_assignment fun o c₁ _ => ?_)
  exact .close (by simp) (.pure rfl)

theorem optionEntries_iff {w : List Token} {os : List OptionDecl} :
    Grammar.optionEntries w os ↔ (w = [] ∧ os = []) ∨ Grammar.assignment.separated w os ∨
      ∃ u t, Grammar.assignment.separated u os ∧ t.kind = .symbol .comma ∧ w = u ++ [t] := by
  rw [Grammar.optionEntries, Rule.or_iff, Rule.or_iff, Rule.symbol, Rule.bind_token_iff]
  refine or_congr Iff.rfl (or_congr Iff.rfl ⟨?_, ?_⟩)
  · rintro ⟨u, _, t, hu, ht, rfl, rfl⟩
    exact ⟨u, t, hu, ht, rfl⟩
  · rintro ⟨u, t, hu, ht, rfl⟩
    exact ⟨u, os, t, hu, ht, rfl, rfl⟩

/-- A list of options, read from the left: it is closed, or an option comes first.  Then it is
closed, or a comma and such a list again follow. -/
theorem optionTail_iff {w : List Token} {os : List OptionDecl} :
    Grammar.optionTail w os ↔
      (∃ t, t.kind = .symbol .closeBracket ∧ w = [t] ∧ os = []) ∨
      (∃ u o t, Grammar.assignment u o ∧ t.kind = .symbol .closeBracket ∧ w = u ++ [t] ∧ os = [o]) ∨
      (∃ u o t v os', Grammar.assignment u o ∧ t.kind = .symbol .comma ∧
        Grammar.optionTail v os' ∧ w = u ++ t :: v ∧ os = o :: os') := by
  have htail {w os} : Grammar.optionTail w os ↔
      ∃ u t, Grammar.optionEntries u os ∧ t.kind = .symbol .closeBracket ∧ w = u ++ [t] := by
    rw [Grammar.optionTail, Rule.symbol, Rule.bind_token_iff]
    exact ⟨fun ⟨u, _, t, hu, ht, hw, ho⟩ => ⟨u, t, ho ▸ hu, ht, hw⟩,
      fun ⟨u, t, hu, ht, hw⟩ => ⟨u, os, t, hu, ht, hw, rfl⟩⟩
  constructor
  · intro h
    obtain ⟨u, t, hentries, ht, rfl⟩ := htail.1 h
    rcases optionEntries_iff.1 hentries with ⟨rfl, rfl⟩ | hu | ⟨u, comma, hu, hcomma, rfl⟩
    · exact .inl ⟨t, ht, rfl, rfl⟩
    · rcases Rule.separated_iff.1 hu with
        ⟨o, ho, rfl⟩ | ⟨v, o, comma, v', os', ho, hcomma, hv, rfl, rfl⟩
      · exact .inr (.inl ⟨u, o, t, ho, ht, rfl, rfl⟩)
      · refine .inr (.inr ⟨v, o, comma, v' ++ [t], os', ho, hcomma, ?_, by simp, rfl⟩)
        exact htail.2 ⟨v', t, optionEntries_iff.2 (.inr (.inl hv)), ht, rfl⟩
    · rcases Rule.separated_iff.1 hu with
        ⟨o, ho, rfl⟩ | ⟨v, o, comma', v', os', ho, hcomma', hv, rfl, rfl⟩
      · refine .inr (.inr ⟨u, o, comma, [t], [], ho, hcomma, ?_, by simp, rfl⟩)
        exact htail.2 ⟨[], t, optionEntries_iff.2 (.inl ⟨rfl, rfl⟩), ht, rfl⟩
      · refine .inr (.inr ⟨v, o, comma', v' ++ [comma] ++ [t], os', ho, hcomma', ?_, by simp, rfl⟩)
        have hentries := optionEntries_iff.2 (.inr (.inr ⟨v', comma, hv, hcomma, rfl⟩))
        exact htail.2 ⟨_, t, hentries, ht, rfl⟩
  · rintro (⟨t, ht, rfl, rfl⟩ | ⟨u, o, t, ho, ht, rfl, rfl⟩ |
      ⟨u, o, comma, _, os', ho, hcomma, hrest, rfl, rfl⟩)
    · exact htail.2 ⟨[], t, optionEntries_iff.2 (.inl ⟨rfl, rfl⟩), ht, rfl⟩
    · refine htail.2 ⟨u, t, optionEntries_iff.2 (.inr (.inl ?_)), ht, rfl⟩
      exact Rule.separated_iff.2 (.inl ⟨o, ho, rfl⟩)
    · obtain ⟨v, t, hentries, ht, rfl⟩ := htail.1 hrest
      refine htail.2 ⟨u ++ comma :: v, t, optionEntries_iff.2 (.inr ?_), ht, by simp⟩
      rcases optionEntries_iff.1 hentries with ⟨rfl, rfl⟩ | hv | ⟨v, comma', hv, hcomma', rfl⟩
      · exact .inr ⟨u, comma, Rule.separated_iff.2 (.inl ⟨o, ho, rfl⟩), hcomma, rfl⟩
      · exact .inl (Rule.separated_iff.2 (.inr ⟨u, o, comma, v, os', ho, hcomma, hv, rfl, rfl⟩))
      · refine .inr ⟨u ++ comma :: v, comma', Rule.separated_iff.2 (.inr ?_), hcomma', by simp⟩
        exact ⟨u, o, comma, v, os', ho, hcomma, hv, rfl, rfl⟩

/-- The kinds of token that end a list of options, whether it is closed or not. -/
def endsList : List Kind :=
  [.symbol .closeBracket, .symbol .semicolon, .symbol .closeBrace, .endOfFile]

theorem reads_optionSeparator {u : Unit} :
    optionSeparator.Reads c u d ↔ (c.current.kind = .symbol .comma ∧ d = c.advance) ∨
      (c.current.kind ∈ endsList ∧ d = c) := by
  unfold optionSeparator
  rw [reads_accept_bind]
  split
  · simp [*, endsList, reads_pure]
  · rw [if_pos Option.isNone_none, reads_kind_bind]
    split
    all_goals simp_all [endsList, reads_pure, not_reads_report_bind]

theorem assignment_progress {o : OptionDecl} (h : assignment.Reads c o d) :
    d.remaining < c.remaining :=
  (parses_assignment (F := anything)).progress assignment_begins h

theorem reads_optionEntry {os : List OptionDecl} {r : Round (List OptionDecl)} :
    (optionEntry os).Reads c r d ↔
      (c.current.kind = .symbol .closeBracket ∧ r = .done os ∧ d = c.advance) ∨
      (c.current.kind ∉ endsList ∧ ∃ o c', assignment.Reads c o c' ∧
        optionSeparator.Reads c' () d ∧ r = .again (os ++ [o])) := by
  unfold optionEntry
  rw [reads_kind_bind]
  split
  · simp [*, endsList, reads_skip_bind, reads_pure]
  · simp [*, endsList, not_reads_report_bind]
  · simp [*, endsList, not_reads_report_bind]
  · simp [*, endsList, not_reads_report_bind]
  · have hmoved {o : OptionDecl} {c₁ : Cursor} (ho : assignment.Reads c o c₁) :
        (c₁.remaining != c.remaining) = true := by
      simpa using Nat.ne_of_lt (assignment_progress ho)
    have hk : c.current.kind ≠ .symbol .closeBracket ∧ c.current.kind ∉ endsList := by
      simp_all [endsList]
    simp only [hk, false_and, not_false_eq_true, true_and, false_or]
    constructor
    · intro h
      obtain ⟨⟨o?, moved⟩, c₁, hmoving, h⟩ := reads_bind.1 h
      obtain ⟨hattempt, rfl⟩ := reads_moving.1 hmoving
      obtain ⟨o, rfl, ho⟩ := reads_attempt.1 hattempt
      simp only [hmoved ho, if_true] at h
      obtain ⟨u, hu, rfl⟩ := reads_bind_pure.1 h
      exact ⟨o, c₁, ho, hu, rfl⟩
    · rintro ⟨o, c₁, ho, hu, rfl⟩
      refine reads_bind.2 ⟨(some o, true), c₁, ?_, reads_bind_pure.2 ⟨(), hu, rfl⟩⟩
      exact reads_moving.2 ⟨reads_attempt.2 ⟨o, rfl, ho⟩, (hmoved ho).symm⟩

theorem not_endsList {w rest : List Token} {o : OptionDecl} (h : Grammar.assignment w o)
    (hview : c.view = w ++ rest) : c.current.kind ∉ endsList := by
  have hk := current_kind_of_begins assignment_begins h hview
  rintro hmem
  simp only [endsList, List.mem_cons, List.not_mem_nil, or_false] at hmem
  rcases hmem with hk' | hk' | hk' | hk' <;> simp [hk', Kind.isName] at hk

theorem optionEntry_progress (os : List OptionDecl) (c : Cursor) (os' : List OptionDecl)
    (d : Cursor) (h : (optionEntry os).Reads c (.again os') d) : d.remaining < c.remaining := by
  rcases reads_optionEntry.1 h with ⟨-, hr, -⟩ | ⟨-, o, c', ho, hu, -⟩
  · cases hr
  · exact Nat.lt_of_le_of_lt hu.leads.remaining_le (assignment_progress ho)

/-- What the loop reads without reports is the tail of a list of options. -/
theorem optionTail_of_reads {os os' : List OptionDecl}
    (hread : (loop optionEntry os).Reads c os' d) :
    ∃ w, c.view = w ++ d.view ∧ ((bare os ++ ·) <$> Grammar.optionTail) w (bare os') := by
  refine Reads.loop_induct
    (P := fun os c os' d => ∃ w, c.view = w ++ d.view ∧
      ((bare os ++ ·) <$> Grammar.optionTail) w (bare os'))
    optionEntry_progress ?_ ?_ hread
  · intro os c os' d hlast
    rcases reads_optionEntry.1 hlast with ⟨hk, hr, rfl⟩ | ⟨-, o, c', -, -, hr⟩
    · cases hr
      refine ⟨[c.current], Cursor.view_eq_cons (by simp [hk]), [], ?_, by simp⟩
      exact optionTail_iff.2 (.inl ⟨c.current, hk, rfl, rfl⟩)
    · cases hr
  · rintro os c os₁ c₁ os' d hround ⟨w, hw, new, hnew, hos'⟩
    rcases reads_optionEntry.1 hround with ⟨-, hr, -⟩ | ⟨-, o, c', ho, hu, hr⟩
    · cases hr
    cases hr
    obtain ⟨u, hu', hou⟩ := (parses_assignment (F := anything)).sound ho
    rw [hos']
    rcases reads_optionSeparator.1 hu with ⟨hk, rfl⟩ | ⟨hk, rfl⟩
    · refine ⟨u ++ c'.current :: w, ?_, bare o :: new, ?_, by simp⟩
      · rw [hu', Cursor.view_eq_cons (by simp [hk]), hw, List.append_assoc]
        rfl
      · exact optionTail_iff.2 (.inr (.inr ⟨u, _, _, w, _, hou, hk, hnew, rfl, rfl⟩))
    · -- Without a comma, the list has to be closed.
      rcases optionTail_iff.1 hnew with ⟨t, ht, rfl, rfl⟩ | ⟨v, o', t, ho', -, rfl, -⟩ |
        ⟨v, o', t, v', _, ho', -, -, rfl, -⟩
      · refine ⟨u ++ [t], by rw [hu', hw, List.append_assoc], [bare o], ?_, by simp⟩
        exact optionTail_iff.2 (.inr (.inl ⟨u, _, t, hou, ht, rfl, rfl⟩))
      · exact absurd hk (not_endsList ho' (by rw [hw, List.append_assoc]))
      · exact absurd hk (not_endsList ho' (by rw [hw, List.append_assoc]))

/-- Behind an option, the separator leads to the tail of the list that is left. -/
theorem optionTail_cons {w : List Token} {o : OptionDecl} {os : List OptionDecl}
    (hw : Grammar.optionTail w (o :: os)) :
    ∃ u v, Grammar.assignment u o ∧ w = u ++ v ∧ ∀ {c : Cursor} {rest : List Token},
      c.view = v ++ rest → ∃ d v', optionSeparator.Reads c () d ∧ d.view = v' ++ rest ∧
        Grammar.optionTail v' os := by
  rcases optionTail_iff.1 hw with ⟨_, -, -, h⟩ | ⟨u, _, t, ho, ht, rfl, h⟩ |
    ⟨u, _, t, v, _, ho, ht, hv, rfl, h⟩
  · cases h
  · cases h
    refine ⟨u, [t], ho, rfl, fun {c rest} hview => ?_⟩
    have hk : c.current.kind ∈ endsList := by
      rw [Cursor.current_kind, hview]
      simp [endsList, ht]
    refine ⟨c, [t], reads_optionSeparator.2 (.inr ⟨hk, rfl⟩), hview, ?_⟩
    exact optionTail_iff.2 (.inl ⟨t, ht, rfl, rfl⟩)
  · cases h
    refine ⟨u, t :: v, ho, rfl, fun {c rest} hview => ?_⟩
    obtain ⟨rfl, hrest⟩ := Cursor.advance_of_view_cons hview
    exact ⟨c.advance, v, reads_optionSeparator.2 (.inl ⟨ht, rfl⟩), hrest, hv⟩

theorem parses_optionTail (os : List OptionDecl) :
    ParsesAt F c (loop optionEntry os) ((bare os ++ ·) <$> Grammar.optionTail) where
  sound := optionTail_of_reads
  complete := by
    rintro w b rest ⟨new, hnew, rfl⟩ hview -
    induction new generalizing os c w with
    | nil =>
      rcases optionTail_iff.1 hnew with ⟨t, ht, rfl, -⟩ | ⟨_, _, _, -, -, -, h⟩ |
        ⟨_, _, _, _, _, -, -, -, -, h⟩
      · obtain ⟨rfl, hrest⟩ := Cursor.advance_of_view_cons hview
        have hlast : (optionEntry os).Reads c (.done os) c.advance :=
          reads_optionEntry.2 (.inl ⟨ht, rfl, rfl⟩)
        exact ⟨os, _, (reads_loop optionEntry_progress).2 (.inl hlast), hrest, by simp⟩
      · cases h
      · cases h
    | cons o new ih =>
      obtain ⟨u, v, ho, rfl, hseparator⟩ := optionTail_cons hnew
      rw [List.append_assoc] at hview
      obtain ⟨o', c₁, ho', hc₁, rfl⟩ := (parses_assignment (F := anything)).complete ho hview
        trivial
      obtain ⟨d, v', hs, hd, hv'⟩ := hseparator hc₁
      obtain ⟨os', e, hread, he, hos'⟩ := ih (os ++ [o']) hv' hd
      have hround : (optionEntry os).Reads c (.again (os ++ [o'])) d :=
        reads_optionEntry.2 (.inr ⟨not_endsList ho hview, o', c₁, ho', hs, rfl⟩)
      refine ⟨os', e, (reads_loop optionEntry_progress).2 (.inr ⟨_, _, hround, hread⟩), he, ?_⟩
      rw [hos']
      simp

theorem optionList_begins : Grammar.optionList.Begins (· = .symbol .openBracket) :=
  (Rule.token_begins _).bind _

theorem parses_optionList (hk : c.current.kind = .symbol .openBracket) :
    ParsesAt F c optionList Grammar.optionList := by
  refine .skip hk (by simp) ((parses_optionTail []).of_iff fun w os => ?_)
  simp [Rule.map_iff]

/-- What may follow a list of options, even an absent one. -/
def notBracket (k : Kind) : Prop :=
  k ≠ .symbol .openBracket

theorem parses_options : ParsesAt notBracket c options Grammar.options := by
  refine .kind (.ite parses_optionList (fun _ => .pure rfl) ?_ ?_)
  · intro w os rest hw hview _
    exact current_kind_of_begins optionList_begins hw hview
  · rintro w os rest ⟨rfl, -⟩ hview hF
    rw [Cursor.current_kind, hview]
    exact hF

/-! ## Lists of numbers -/

/-- What may follow a number that could begin a range. -/
def notTo (k : Kind) : Prop :=
  k ≠ .keyword .upTo

theorem number_begins : Grammar.number.Begins (· = .number) :=
  (Rule.token_begins _).map _

theorem numberOrRange_begins : Grammar.numberOrRange.Begins (· = .number) :=
  (number_begins.map _).or (number_begins.bind _)

theorem parses_numberOrRange (hk : c.current.kind = .number) :
    ParsesAt notTo c numberOrRange Grammar.numberOrRange := by
  rw [Grammar.numberOrRange, Rule.map_or_bind, Grammar.number, Rule.bind_map]
  refine .take hk (by simp) (.accept (by simp) (fun _ => ?_) (fun _ => .pure rfl) ?_)
  · rw [Grammar.rangeEnd, Rule.or_bind, Grammar.number, Rule.map_map, Rule.bind_map, Rule.bind_map]
    refine Decides.all (.or (.kind ((Rule.token_begins _).bind _) fun hk => ?_)
      (.kind ((Rule.token_begins _).bind _) fun hk => ?_)) fun hk a d hread => ?_
    · refine .kind ?_
      rw [hk]
      exact .take hk (by simp) (.spanned rfl)
    · refine .kind ?_
      rw [hk]
      exact .take hk (by simp) (.spanned rfl)
    · replace hread := reads_kind_bind.1 hread
      split at hread <;> simp_all [not_reads_report_bind]
  · exact Rule.offers_pure _ fun _ => id

/-! ### The loop of a list -/

section
variable {σ ι κ ε : Type} {form : ListForm σ}

/-- The words that the loop of a list reads, and what they make of a state.  The flag says whether
an item is wanted. -/
inductive ListRun (item : Rule ι) (options : Rule κ) (addItem : σ → ι → σ)
    (addOptions : σ → κ → σ) : Bool → σ → List Token → σ → Prop
  | item {s s' : σ} {u v : List Token} {i : ι} (hitem : item u i)
      (hrest : ListRun item options addItem addOptions false (addItem s i) v s') :
      ListRun item options addItem addOptions true s (u ++ v) s'
  | options {s s' : σ} {u v : List Token} {o : κ} (hoptions : options u o)
      (hrest : ListRun item options addItem addOptions false (addOptions s o) v s') :
      ListRun item options addItem addOptions false s (u ++ v) s'
  | comma {s s' : σ} {t : Token} {v : List Token} (ht : t.kind = .symbol .comma)
      (hrest : ListRun item options addItem addOptions true s v s') :
      ListRun item options addItem addOptions false s (t :: v) s'
  | semicolon {s : σ} {t : Token} (ht : t.kind = .symbol .semicolon) :
      ListRun item options addItem addOptions false s [t] s

/-- That a form of lists reads items and options by the given rules. -/
structure ListForm.Parses [Seen σ] (form : ListForm σ) (item : Rule ι) (options : Rule κ)
    (addItem : σ → ι → σ) (addOptions : σ → κ → σ) : Prop where
  starts : ∀ k ∈ form.starts, k ∉ [Kind.symbol .semicolon, .symbol .closeBrace, .endOfFile]
  item_begins : item.Begins (· ∈ form.starts)
  parses_item : ∀ s c, c.current.kind ∈ form.starts →
    ParsesAt notTo c (form.item s) (addItem (bare s) <$> item)
  options_begins : options.Begins (· = .symbol .openBracket)
  parses_options : ∀ read ∈ form.options?, ∀ s c, c.current.kind = .symbol .openBracket →
    ParsesAt anything c (read s) (addOptions (bare s) <$> options)
  no_options : form.options? = none → options = .nothing

theorem reads_listEntry {wanted : Bool} {s : σ} {r : Round (Bool × σ)}
    (hstarts : ∀ k ∈ form.starts, k ∉ [Kind.symbol .semicolon, .symbol .closeBrace, .endOfFile]) :
    (listEntry form (wanted, s)).Reads c r d ↔
      (wanted = true ∧ c.current.kind ∈ form.starts ∧
        ∃ s', (form.item s).Reads c s' d ∧ r = .again (false, s')) ∨
      (wanted = false ∧ c.current.kind = .symbol .openBracket ∧
        ∃ read ∈ form.options?, ∃ s', (read s).Reads c s' d ∧ r = .again (false, s')) ∨
      (wanted = false ∧ c.current.kind = .symbol .comma ∧ d = c.advance ∧ r = .again (true, s)) ∨
      (wanted = false ∧ c.current.kind = .symbol .semicolon ∧ d = c.advance ∧
        r = .done (false, s)) := by
  unfold listEntry
  rw [reads_kind_bind]
  by_cases hsemi : c.current.kind = .symbol .semicolon
  · have hnot : c.current.kind ∉ form.starts := fun hk => hstarts _ hk (by simp [hsemi])
    rw [if_pos hsemi]
    cases wanted with
    | true => simp [hsemi, hsemi ▸ hnot, not_reads_report_bind]
    | false => simpa [hsemi, reads_skip_bind, reads_pure] using and_comm
  rw [if_neg hsemi]
  by_cases hend : c.current.kind = .symbol .closeBrace ∨ c.current.kind = .endOfFile
  · have hnot : c.current.kind ∉ form.starts := fun hk => hstarts _ hk (by simpa [hsemi] using hend)
    rw [if_pos hend]
    rcases hend with hend | hend <;> simp [hend, hend ▸ hnot, not_reads_report_bind]
  rw [if_neg hend]
  cases wanted with
  | true =>
    rw [if_pos rfl]
    split
    · simp [*, reads_bind_pure]
    · simp [*, not_reads_report_bind]
  | false =>
    rw [if_neg Bool.false_ne_true]
    by_cases hcomma : c.current.kind = .symbol .comma
    · rw [if_pos hcomma]
      simpa [hcomma, reads_skip_bind, reads_pure] using and_comm
    rw [if_neg hcomma]
    split
    · simp [*, reads_bind_pure]
    · simp_all [not_reads_report_bind]

variable {item : Rule ι} {options : Rule κ} {addItem : σ → ι → σ} {addOptions : σ → κ → σ}

/-- Behind an item stands an opening bracket, a comma or a semicolon. -/
theorem ListRun.offers {s s' : σ} {w rest : List Token}
    (hoptions : options.Begins (· = .symbol .openBracket))
    (h : ListRun item options addItem addOptions false s w s') : notTo (nextKind (w ++ rest)) := by
  cases h with
  | options ho _ =>
    obtain ⟨t, v, rfl, ht⟩ := hoptions _ _ ho
    simp [notTo, ht]
  | comma ht _ => simp [notTo, ht]
  | semicolon ht => simp [notTo, ht]

theorem ListRun.many_options {v w : List Token} {os : List κ} (hos : options.many v os)
    {s s' : σ} (h : ListRun item options addItem addOptions false (os.foldl addOptions s) w s') :
    ListRun item options addItem addOptions false s (v ++ w) s' := by
  induction hos generalizing s with
  | nil => exact h
  | cons head _ ih =>
    rw [List.append_assoc]
    exact .options head (ih h)

/-- What the words of the loop are: entries with commas between and a semicolon behind them, or the
same from behind an item on. -/
def ListRun.Divided (entry : Rule ε) (options : Rule κ) (addEntry : σ → ε → σ)
    (addOptions : σ → κ → σ) : Bool → σ → List Token → σ → Prop
  | true, s, w, s' => ∃ u es t, entry.separated u es ∧ t.kind = .symbol .semicolon ∧
      w = u ++ [t] ∧ s' = es.foldl addEntry s
  | false, s, w, s' => ∃ v os w', options.many v os ∧ w = v ++ w' ∧
      ((∃ t, t.kind = .symbol .semicolon ∧ w' = [t] ∧ s' = os.foldl addOptions s) ∨
        ∃ comma u es t, comma.kind = .symbol .comma ∧ entry.separated u es ∧
          t.kind = .symbol .semicolon ∧ w' = comma :: u ++ [t] ∧
          s' = es.foldl addEntry (os.foldl addOptions s))

section
variable {entry : Rule ε} {addEntry : σ → ε → σ}

/-- An item and the options behind it are an entry. -/
theorem ListRun.divided
    (hentry : ∀ u v i os, item u i → options.many v os → ∃ e, entry (u ++ v) e ∧
      ∀ s, addEntry s e = os.foldl addOptions (addItem s i))
    {wanted : Bool} {s s' : σ} {w : List Token}
    (h : ListRun item options addItem addOptions wanted s w s') :
    Divided entry options addEntry addOptions wanted s w s' := by
  induction h with
  | item hi _ ih =>
    obtain ⟨v, os, w', hos, rfl, hrest⟩ := ih
    obtain ⟨e, he, hadd⟩ := hentry _ v _ os hi hos
    rcases hrest with ⟨t, ht, rfl, rfl⟩ | ⟨comma, u, es, t, hcomma, hu, ht, rfl, rfl⟩
    · have hsep := Rule.separated_iff.2 (.inl ⟨e, he, rfl⟩)
      exact ⟨_, [e], t, hsep, ht, by simp, by simp [hadd]⟩
    · have hsep := Rule.separated_iff.2 (.inr ⟨_, e, comma, u, es, he, hcomma, hu, rfl, rfl⟩)
      exact ⟨_, e :: es, t, hsep, ht, by simp, by simp [hadd]⟩
  | options ho _ ih =>
    obtain ⟨v, os, w', hos, rfl, hrest⟩ := ih
    exact ⟨_, _ :: os, w', .cons ho hos, by simp, hrest⟩
  | comma ht _ ih =>
    obtain ⟨u, es, t, hu, ht', rfl, rfl⟩ := ih
    exact ⟨[], [], _, .nil, rfl, .inr ⟨_, u, es, t, ht, hu, ht', by simp, rfl⟩⟩
  | semicolon ht => exact ⟨[], [], _, .nil, rfl, .inl ⟨_, ht, rfl, rfl⟩⟩

/-- An entry is an item with options behind it. -/
theorem ListRun.of_separated
    (hentry : ∀ w e, entry w e → ∃ u v i os, w = u ++ v ∧ item u i ∧ options.many v os ∧
      ∀ s, addEntry s e = os.foldl addOptions (addItem s i))
    {s : σ} {u : List Token} {es : List ε} {t : Token} (hu : entry.separated u es)
    (ht : t.kind = .symbol .semicolon) :
    ListRun item options addItem addOptions true s (u ++ [t]) (es.foldl addEntry s) := by
  induction es generalizing s u with
  | nil =>
    rcases Rule.separated_iff.1 hu with ⟨_, -, h⟩ | ⟨_, _, _, _, _, -, -, -, -, h⟩
    · cases h
    · cases h
  | cons e es ih =>
    rcases Rule.separated_iff.1 hu with ⟨_, he, h⟩ | ⟨u, _, comma, v, _, he, hcomma, hv, rfl, h⟩
    · cases h
      obtain ⟨u', v', i, os, rfl, hi, hos, hadd⟩ := hentry _ _ he
      rw [List.append_assoc]
      refine .item hi (.many_options hos ?_)
      rw [List.foldl_cons, List.foldl_nil, hadd]
      exact .semicolon ht
    · cases h
      obtain ⟨u', v', i, os, rfl, hi, hos, hadd⟩ := hentry _ _ he
      rw [List.append_assoc, List.append_assoc]
      refine .item hi (.many_options hos ?_)
      rw [List.foldl_cons, hadd]
      exact .comma hcomma (ih hv)

end

variable [Seen σ]

theorem listEntry_progress (h : form.Parses item options addItem addOptions) (a : Bool × σ)
    (c : Cursor) (b : Bool × σ) (d : Cursor) (hround : (listEntry form a).Reads c (.again b) d) :
    d.remaining < c.remaining := by
  rcases (reads_listEntry h.starts).1 hround with ⟨-, hk, s', hs', -⟩ |
    ⟨-, hk, read, hread, s', hs', -⟩ | ⟨-, hk, rfl, -⟩ | ⟨-, -, -, hr⟩
  · exact (h.parses_item _ c hk).progress (h.item_begins.map _) hs'
  · exact (h.parses_options read hread _ c hk).progress (h.options_begins.map _) hs'
  · exact remaining_advance_lt_of_kind (by simp [hk])
  · cases hr

/-- What the loop reads without reports is a word of it. -/
theorem ListRun.of_reads (h : form.Parses item options addItem addOptions) {a b : Bool × σ}
    (hread : (listItems form a).Reads c b d) :
    ∃ w, c.view = w ++ d.view ∧ b.1 = false ∧
      ListRun item options addItem addOptions a.1 (bare a.2) w (bare b.2) := by
  refine Reads.loop_induct
    (P := fun a c b d => ∃ w, c.view = w ++ d.view ∧ b.1 = false ∧
      ListRun item options addItem addOptions a.1 (bare a.2) w (bare b.2))
    (listEntry_progress h) ?_ ?_ hread
  · rintro ⟨wanted, s⟩ c b d hlast
    rcases (reads_listEntry h.starts).1 hlast with ⟨-, -, _, -, hr⟩ | ⟨-, -, _, -, _, -, hr⟩ |
      ⟨-, -, -, hr⟩ | ⟨rfl, hk, rfl, hr⟩
    · cases hr
    · cases hr
    · cases hr
    · cases hr
      exact ⟨[c.current], Cursor.view_eq_cons (by simp [hk]), rfl, .semicolon hk⟩
  · rintro ⟨wanted, s⟩ c a c₁ b d hround ⟨w, hw, hb, hrun⟩
    rcases (reads_listEntry h.starts).1 hround with ⟨rfl, hk, s', hs', hr⟩ |
      ⟨rfl, hk, read, hread, s', hs', hr⟩ | ⟨rfl, hk, rfl, hr⟩ | ⟨-, -, -, hr⟩
    · cases hr
      obtain ⟨u, hu, i, hi, hs'⟩ := (h.parses_item s c hk).sound hs'
      refine ⟨u ++ w, by rw [hu, hw, List.append_assoc], hb, .item hi ?_⟩
      rwa [← hs']
    · cases hr
      obtain ⟨u, hu, o, ho, hs'⟩ := (h.parses_options read hread s c hk).sound hs'
      refine ⟨u ++ w, by rw [hu, hw, List.append_assoc], hb, .options ho ?_⟩
      rwa [← hs']
    · cases hr
      refine ⟨c.current :: w, ?_, hb, .comma hk hrun⟩
      rw [Cursor.view_eq_cons (by simp [hk]), hw]
      rfl
    · cases hr

/-- The loop reads each of its words. -/
theorem ListRun.reads (h : form.Parses item options addItem addOptions) {wanted : Bool}
    {t t' : σ} {w rest : List Token}
    (hrun : ListRun item options addItem addOptions wanted t w t') :
    ∀ (s : σ) (c : Cursor), bare s = t → c.view = w ++ rest →
      ∃ b d, (listItems form (wanted, s)).Reads c b d ∧ d.view = rest ∧ b.1 = false ∧
        bare b.2 = t' := by
  induction hrun with
  | item hi hrest ih =>
    rintro s c rfl hview
    rw [List.append_assoc] at hview
    have hk := current_kind_of_begins h.item_begins hi hview
    obtain ⟨s₁, c₁, hs₁, hc₁, hbare⟩ := (h.parses_item s c hk).complete ⟨_, hi, rfl⟩ hview
      (hrest.offers h.options_begins)
    obtain ⟨b, d, hread, hb⟩ := ih s₁ c₁ hbare hc₁
    have hround : (listEntry form (true, s)).Reads c (.again (false, s₁)) c₁ :=
      (reads_listEntry h.starts).2 (.inl ⟨rfl, hk, s₁, hs₁, rfl⟩)
    exact ⟨b, d, (reads_loop (listEntry_progress h)).2 (.inr ⟨_, _, hround, hread⟩), hb⟩
  | options ho hrest ih =>
    rintro s c rfl hview
    rw [List.append_assoc] at hview
    have hk := current_kind_of_begins h.options_begins ho hview
    cases hform : form.options? with
    | none =>
      rw [h.no_options hform] at ho
      exact ho.elim
    | some read =>
      obtain ⟨s₁, c₁, hs₁, hc₁, hbare⟩ := (h.parses_options read hform s c hk).complete
        ⟨_, ho, rfl⟩ hview trivial
      obtain ⟨b, d, hread, hb⟩ := ih s₁ c₁ hbare hc₁
      have hround : (listEntry form (false, s)).Reads c (.again (false, s₁)) c₁ :=
        (reads_listEntry h.starts).2 (.inr (.inl ⟨rfl, hk, read, hform, s₁, hs₁, rfl⟩))
      exact ⟨b, d, (reads_loop (listEntry_progress h)).2 (.inr ⟨_, _, hround, hread⟩), hb⟩
  | comma ht hrest ih =>
    rintro s c rfl hview
    obtain ⟨rfl, hview₁⟩ := Cursor.advance_of_view_cons hview
    obtain ⟨b, d, hread, hb⟩ := ih s c.advance rfl hview₁
    have hround : (listEntry form (false, s)).Reads c (.again (true, s)) c.advance :=
      (reads_listEntry h.starts).2 (.inr (.inr (.inl ⟨rfl, ht, rfl, rfl⟩)))
    exact ⟨b, d, (reads_loop (listEntry_progress h)).2 (.inr ⟨_, _, hround, hread⟩), hb⟩
  | semicolon ht =>
    rintro s c rfl hview
    obtain ⟨rfl, hview₁⟩ := Cursor.advance_of_view_cons hview
    have hlast : (listEntry form (false, s)).Reads c (.done (false, s)) c.advance :=
      (reads_listEntry h.starts).2 (.inr (.inr (.inr ⟨rfl, ht, rfl, rfl⟩)))
    exact ⟨_, _, (reads_loop (listEntry_progress h)).2 (.inl hlast), hview₁, rfl, rfl⟩

theorem parses_listRun (h : form.Parses item options addItem addOptions) (s : σ) :
    ParsesAt F c (listItems form (true, s)) fun w b =>
      b.1 = false ∧ ListRun item options addItem addOptions true (bare s) w b.2 where
  sound := ListRun.of_reads h
  complete := by
    rintro w ⟨wanted, b⟩ rest ⟨rfl, hw⟩ hview -
    obtain ⟨b', d, hread, hd, hwanted, rfl⟩ := hw.reads h s c rfl hview
    exact ⟨b', d, hread, hd, Prod.ext hwanted rfl⟩

/-- A list is entries with commas between and a semicolon behind them. -/
theorem parses_listItems (h : form.Parses item options addItem addOptions) {entry : Rule ε}
    {addEntry : σ → ε → σ}
    (hentry : ∀ w e, entry w e → ∃ u v i os, w = u ++ v ∧ item u i ∧ options.many v os ∧
      ∀ s, addEntry s e = os.foldl addOptions (addItem s i))
    (hentry' : ∀ u v i os, item u i → options.many v os → ∃ e, entry (u ++ v) e ∧
      ∀ s, addEntry s e = os.foldl addOptions (addItem s i)) (s : σ) :
    ParsesAt F c (listItems form (true, s)) (do
      let entries ← entry.separated
      let _ ← Rule.symbol .semicolon
      return (false, entries.foldl addEntry (bare s))) := by
  refine (parses_listRun h s).of_iff fun w b => ?_
  rw [Rule.symbol, Rule.bind_token_iff]
  constructor
  · rintro ⟨hb, hrun⟩
    obtain ⟨u, es, t, hu, ht, rfl, hb'⟩ := hrun.divided hentry'
    exact ⟨u, es, t, hu, ht, rfl, Prod.ext hb hb'⟩
  · rintro ⟨u, es, t, hu, ht, rfl, rfl⟩
    exact ⟨rfl, .of_separated hentry hu ht⟩

end

/-! ### Reserved lists and extension lists -/

theorem reservedForm_parses :
    reservedForm.Parses Grammar.reservedItem (.nothing : Rule Unit) (fun items i => items ++ [i])
      fun items _ => items where
  starts := by decide
  item_begins := by
    refine (((Rule.token_begins _).map _).map _).mono ?_ |>.or
      ((numberOrRange_begins.map _).mono ?_)
    · rintro _ rfl
      decide
    · rintro _ rfl
      decide
  parses_item items c hk := by
    rw [Grammar.reservedItem, Rule.map_or, Rule.map_map, Rule.map_map]
    refine .kind (.ite (fun htext => ?_) (fun htext => ?_) ?_ ?_)
    · rw [Grammar.text, Rule.map_map]
      exact .taken htext (by simp) (by simp; rfl)
    · have hnumber : c.current.kind = .number := by simpa [reservedForm, htext] using hk
      refine (parses_numberOrRange hnumber).map fun n c₁ _ => ?_
      cases n <;> exact .pure (by simp; rfl)
    · intro w b rest hw hview _
      exact current_kind_of_begins (((Rule.token_begins _).map _).map _) hw hview
    · intro w b rest hw hview _ htext
      have hnumber := current_kind_of_begins (numberOrRange_begins.map _) hw hview
      simp [htext] at hnumber
  options_begins := nofun
  parses_options := nofun
  no_options _ := rfl

theorem foldl_concat {α : Type} (as bs : List α) :
    bs.foldl (fun as b => as ++ [b]) as = as ++ bs := by
  induction bs generalizing as with
  | nil => simp
  | cons b bs ih => simp [ih]

theorem reserved_begins : Grammar.reserved.Begins (· = .keyword .reserved) :=
  (Rule.token_begins _).bind _

theorem parses_reserved (hk : c.current.kind = .keyword .reserved) :
    ParsesAt F c reserved Grammar.reserved := by
  refine .take hk (by simp) ?_
  have hitems : ParsesAt F c.advance (listItems reservedForm (true, [])) (do
      let items ← Grammar.reservedItem.separated
      let _ ← Rule.symbol .semicolon
      return (false, items.foldl (fun items i => items ++ [i]) [])) := by
    refine parses_listItems reservedForm_parses (fun w i hi => ?_) (fun u v i os hi hos => ?_) []
    · exact ⟨w, [], i, [], (List.append_nil w).symm, hi, .nil, fun _ => rfl⟩
    · cases hos with
      | nil => exact ⟨i, by rwa [List.append_nil], fun _ => rfl⟩
      | cons head _ => exact head.elim
  refine .of_iff (hitems.map (g := fun b => ⟨b.2, nowhere⟩) fun b c₁ _ => .spanned rfl)
    fun w b => ?_
  simp only [Rule.map_bind, Rule.map_pure, foldl_concat, List.nil_append]

theorem extensionItem_begins : (Grammar.extensionNumber <$> Grammar.numberOrRange).Begins
    (· = .number) :=
  numberOrRange_begins.map _

theorem extensionForm_parses :
    extensionForm.Parses (Grammar.extensionNumber <$> Grammar.numberOrRange) Grammar.optionList
      (fun lists range => (lists.1 ++ [range], lists.2))
      fun lists options => (lists.1, lists.2 ++ options) where
  starts := by decide
  item_begins := extensionItem_begins.mono (by rintro _ rfl; decide)
  parses_item lists c hk := by
    have hnumber : c.current.kind = .number := by simpa [extensionForm] using hk
    obtain ⟨ranges, options⟩ := lists
    rw [Rule.map_map]
    refine (parses_numberOrRange hnumber).map fun n c₁ _ => ?_
    cases n <;> exact .pure (by simp; rfl)
  options_begins := optionList_begins
  parses_options read hread lists c hk := by
    cases (show extensionOptions = read from Option.some.inj hread)
    obtain ⟨ranges, options⟩ := lists
    exact (parses_optionList hk).map fun os c₁ _ => .pure (by simp)
  no_options h := nomatch h

theorem extensionList_begins : Grammar.extensionList.Begins (· = .keyword .extensions) :=
  (Rule.token_begins _).bind _

theorem foldl_options {α β : Type} (lists : List (List β)) (s : List α × List β) :
    lists.foldl (fun s list => (s.1, s.2 ++ list)) s = (s.1, s.2 ++ lists.flatten) := by
  induction lists generalizing s with
  | nil => simp
  | cons list lists ih => simp [ih]

theorem foldl_entries {α β : Type} (items : List (α × List β)) (s : List α × List β) :
    items.foldl (fun s item => (s.1 ++ [item.1], s.2 ++ item.2)) s =
      (s.1 ++ items.map Prod.fst, s.2 ++ items.flatMap Prod.snd) := by
  induction items generalizing s with
  | nil => simp
  | cons item items ih => simp [ih]

theorem parses_extensionList (hk : c.current.kind = .keyword .extensions) :
    ParsesAt F c extensionList Grammar.extensionList := by
  refine .take hk (by simp) ?_
  have hitems : ParsesAt F c.advance (listItems extensionForm (true, [], [])) (do
      let items ← Grammar.extensionItem.separated
      let _ ← Rule.symbol .semicolon
      return (false, items.foldl (fun lists item => (lists.1 ++ [item.1], lists.2 ++ item.2))
        ([], []))) := by
    refine parses_listItems extensionForm_parses (fun w i hi => ?_)
      (fun u v range lists hi hos => ?_) ([], [])
    · obtain ⟨u, _, range, rfl, hrange, v, _, lists, rfl, hlists, rfl, rfl⟩ := hi
      exact ⟨u, v, range, lists, by simp, hrange, hlists, fun s => by rw [foldl_options]⟩
    · refine ⟨(range, lists.flatten), ?_, fun s => by rw [foldl_options]⟩
      exact ⟨u, v, range, rfl, hi, v, [], lists, (List.append_nil v).symm, hos, rfl, rfl⟩
  refine .of_iff (hitems.map (g := fun b => ⟨b.2.1, b.2.2, nowhere⟩) fun b c₁ _ => .spanned rfl)
    fun w b => ?_
  simp only [Rule.map_bind, Rule.map_pure, foldl_entries, List.nil_append]

end ProtoDecl.Schema.Parser
