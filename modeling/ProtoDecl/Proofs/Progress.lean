import ProtoDecl.Proofs.Spans.Parse

/-!
# Reading makes progress

The reading of a list of tokens comes to its end, whatever the list: empty, without an end of the
file or with one in the middle, with its positions in any order.

* `Cursor.completed` is the list with an end of the file at its end, and `Cursor.At` says at which
  index of it a cursor stands.  Parsers move a cursor to the same index or a later one
  (`Cursor.At.leads`);
* `Rounds` says what the rounds of a loop come to, with nothing that would bound their number.  A
  loop whose rounds go on only before the end of the file comes to that (`rounds_of_view`);
* `BodyLoop` lists the loops of the grammar.  A round of one that does not leave the loop moves the
  cursor on (`BodyLoop.view_ne_nil`, `remaining_resume_lt`);
* `parse_progresses` puts this together.
-/

namespace ProtoDecl.Schema

namespace Cursor

variable {tokens : List Token} {i j : Nat} {c d : Cursor}

/-! ## Where a cursor stands -/

/-- A list of tokens with an end of the file at its end, supplied if it is missing. -/
def completed (tokens : List Token) : List Token :=
  if isClosed tokens then tokens else tokens ++ [closeAfter tokens]

theorem completed_eq (tokens : List Token) :
    completed tokens = inner tokens ++ [closing tokens] := by
  unfold completed
  split
  · exact eq_inner_append tokens ‹_›
  · rw [inner, closing, if_neg ‹_›, if_neg ‹_›]

/-- The cursor stands at index `i` of the completed list, and no end of the file lies behind it. -/
structure At (tokens : List Token) (i : Nat) (c : Cursor) : Prop where
  ahead : (completed tokens).drop i = c.ahead ++ [c.close]
  passed : ∀ t ∈ (completed tokens).take i, t.kind ≠ .endOfFile

namespace At

/-- The index and the number of tokens ahead make up the list. -/
theorem length_eq (h : At tokens i c) : (completed tokens).length = i + c.remaining + 1 := by
  have hlength := congrArg List.length h.ahead
  rw [List.length_drop, List.length_append, List.length_singleton] at hlength
  rw [remaining]
  omega

theorem getElem?_eq (h : At tokens i c) : (completed tokens)[i]? = some c.current := by
  rw [← List.head?_drop, h.ahead, current]
  cases c.ahead <;> rfl

/-- A cursor that has moved over tokens other than an end of the file stands as many places
further. -/
theorem move (h : At tokens i c) (passed : List Token) (hahead : c.ahead = passed ++ d.ahead)
    (hclose : d.close = c.close) (hpassed : ∀ t ∈ passed, t.kind ≠ .endOfFile) :
    At tokens (i + passed.length) d := by
  have hdrop : (completed tokens).drop i = passed ++ (d.ahead ++ [d.close]) := by
    rw [h.ahead, hahead, hclose, List.append_assoc]
  refine ⟨?_, ?_⟩
  · rw [← List.drop_drop, hdrop, List.drop_left]
  · intro t ht
    rw [List.take_add, hdrop, List.take_left, List.mem_append] at ht
    rcases ht with ht | ht
    · exact h.passed t ht
    · exact hpassed t ht

end At

theorem kind_of_isComment {t : Token} (h : isComment t = true) : t.kind ≠ .endOfFile := by
  have hk : t.kind = .comment := by simpa [isComment] using h
  rw [hk]
  decide

theorem at_ofTokens (tokens : List Token) : ∃ i, At tokens i (ofTokens tokens) := by
  have hcomments : ∀ t ∈ (inner tokens).takeWhile isComment, t.kind ≠ .endOfFile :=
    fun t ht => kind_of_isComment (List.mem_takeWhile_imp ht)
  have hdrop : (completed tokens).drop ((inner tokens).takeWhile isComment).length =
      (ofTokens tokens).ahead ++ [(ofTokens tokens).close] := by
    rw [completed_eq]
    nth_rewrite 2 [← List.takeWhile_append_dropWhile (p := isComment) (l := inner tokens)]
    rw [List.append_assoc, List.drop_left]
    rfl
  refine ⟨_, hdrop, fun t ht => hcomments t ?_⟩
  rw [completed_eq] at ht
  nth_rewrite 2 [← List.takeWhile_append_dropWhile (p := isComment) (l := inner tokens)] at ht
  rwa [List.append_assoc, List.take_left] at ht

theorem At.advance (h : At tokens i c) : ∃ j, At tokens j c.advance := by
  rcases ahead_cases c with hnil | ⟨t, rest, hcons, hclose⟩ | ⟨t, rest, hcons, hclose, -⟩
  · exact ⟨i, by rwa [Cursor.advance, hnil]⟩
  · exact ⟨i, by simpa [Cursor.advance, hcons, hclose] using h⟩
  · have hahead : c.advance.ahead = rest.dropWhile isComment := by
      simp [Cursor.advance, hcons, hclose]
    have hkept : c.advance.close = c.close := by
      simp [Cursor.advance, hcons, hclose]
    refine ⟨_, h.move (d := c.advance) (t :: rest.takeWhile isComment) ?_ hkept ?_⟩
    · rw [hcons, hahead, List.cons_append, List.takeWhile_append_dropWhile]
    · intro u hu
      rcases List.mem_cons.1 hu with rfl | hu
      · simpa [isClose] using hclose
      · exact kind_of_isComment (List.mem_takeWhile_imp hu)

theorem At.passing (h : At tokens i c) (n : Nat) : ∃ j, At tokens j (c.passing n) := by
  induction n generalizing i c with
  | zero => exact ⟨i, h⟩
  | succ n ih =>
    obtain ⟨j, hj⟩ := h.advance
    exact ih hj

/-- Where a reading leads is a place in the list too, and none before. -/
theorem At.leads (h : At tokens i c) (hd : c.Leads d) : ∃ j, i ≤ j ∧ At tokens j d := by
  have hle := hd.remaining_le
  obtain ⟨n, new, rfl⟩ := hd
  obtain ⟨j, hj⟩ := h.passing n
  have hafter : At tokens j (c.after n new) := ⟨hj.ahead, hj.passed⟩
  have hi := h.length_eq
  have hj := hafter.length_eq
  exact ⟨j, by omega, hafter⟩

/-- Where fewer tokens are ahead, the place is a later one. -/
theorem At.leads_lt (h : At tokens i c) (hd : c.Leads d) (hlt : d.remaining < c.remaining) :
    ∃ j, i < j ∧ At tokens j d := by
  obtain ⟨j, -, hj⟩ := h.leads hd
  have hi := h.length_eq
  have hlength := hj.length_eq
  exact ⟨j, by omega, hj⟩

/-- Moving on later leads further than moving on now. -/
theorem Leads.advance (h : c.Leads d) : c.advance.Leads d.advance := by
  obtain ⟨n, new, rfl⟩ := h
  refine ⟨n, new, ?_⟩
  rw [← after_one, ← after_one, after_after, after_after, Nat.add_comm, List.nil_append,
    List.append_nil]

theorem current_kind_ne_comment (c : Cursor) : c.current.kind ≠ .comment := by
  rw [current]
  cases hahead : c.ahead with
  | nil =>
    rw [List.headD_nil, c.close_kind]
    decide
  | cons t rest => exact c.rests t (by rw [hahead]; rfl)

end Cursor

namespace Parser

variable {σ : Type} {c d : Cursor}

/-! ## Rounds -/

/-- What the rounds of a loop come to, one after another, as long as they go on. -/
inductive Rounds (round : σ → Parser (Round σ)) : σ → Cursor → Option σ × Cursor → Prop
  | gaveUp {s : σ} {c d : Cursor} (h : (round s).run c = (none, d)) : Rounds round s c (none, d)
  | done {s s' : σ} {c d : Cursor} (h : (round s).run c = (some (.done s'), d)) :
      Rounds round s c (some s', d)
  | again {s s' : σ} {c d : Cursor} {out : Option σ × Cursor}
      (h : (round s).run c = (some (.again s'), d)) (rest : Rounds round s' (resume c d) out) :
      Rounds round s c out

/-- A loop is what its rounds come to, if they go on only before the end of the file. -/
theorem rounds_of_view {round : σ → Parser (Round σ)}
    (hagain : ∀ s c s' d, (round s).Yields c (.again s') d → c.view ≠ []) (s : σ) (c : Cursor) :
    Rounds round s c ((loop round s).run c) := by
  change Rounds round s c (rounds round s c)
  fun_induction rounds round s c with
  | case1 s c next hr => exact .gaveUp hr
  | case2 s c state next hr => exact .done hr
  | case3 s c state next hr hlt ih => exact .again hr ih
  | case4 s c state next hr hlt =>
    have hleads : c.Leads next := Yields.leads hr
    exact absurd (remaining_resume_lt hleads (hagain s c state next hr)) hlt

theorem view_ne_nil_of_remaining_lt (h : c.Leads d) (hlt : d.remaining < c.remaining) :
    c.view ≠ [] := by
  obtain ⟨n, new, rfl⟩ := h
  exact ((Cursor.remaining_after_lt_iff c n new).1 hlt).2

theorem view_ne_nil_of_kind (h : c.current.kind ≠ .endOfFile) : c.view ≠ [] :=
  mt Cursor.current_kind_eq_endOfFile_iff.2 h

/-- What begins with a token has read it. -/
theorem remaining_lt_of_advance (h : c.current.kind ≠ .endOfFile) (hd : c.advance.Leads d) :
    d.remaining < c.remaining :=
  Nat.lt_of_le_of_lt hd.remaining_le (remaining_advance_lt_of_kind h)

/-! ## The loops of the grammar -/

/-- The rounds of which the grammar makes loops. -/
inductive BodyLoop : {σ : Type} → (σ → Parser (Round σ)) → Prop
  | file : BodyLoop fileEntry
  | message (closing : String) : BodyLoop (blockEntry closing (messageStatement message))
  | oneof (closing : String) : BodyLoop (blockEntry closing oneofStatement)
  | extend (closing : String) : BodyLoop (blockEntry closing extendStatement)
  | enum (closing : String) : BodyLoop (blockEntry closing enumStatement)
  | service (closing : String) : BodyLoop (blockEntry closing serviceStatement)
  | method (closing : String) : BodyLoop (blockEntry closing methodStatement)
  | options : BodyLoop optionEntry
  | reserved : BodyLoop (listEntry reservedForm)
  | extensions : BodyLoop (listEntry extensionForm)
  | name (subject : String) : BodyLoop (segment subject)

/-- Those of them whose rounds go on only by what they read, so that no token has to be passed over
between two rounds. -/
inductive ReadingLoop : {σ : Type} → (σ → Parser (Round σ)) → Prop
  | reserved : ReadingLoop (listEntry reservedForm)
  | extensions : ReadingLoop (listEntry extensionForm)
  | name (subject : String) : ReadingLoop (segment subject)

/-- At the end of the file a block is over. -/
theorem blockEntry_again {closing : String} {statement : σ → Parser σ} {s s' : σ}
    (h : (blockEntry closing statement s).Yields c (.again s') d) : c.view ≠ [] := by
  obtain ⟨k, c', hk, h⟩ := yields_bind.1 h
  obtain ⟨rfl, rfl⟩ := yields_kind.1 hk
  apply view_ne_nil_of_kind
  intro hend
  rw [hend] at h
  obtain ⟨u, c₁, -, h⟩ := yields_bind.1 h
  cases (yields_pure.1 h).1

/-- At the end of the file a list of options is over. -/
theorem optionEntry_again {s s' : List OptionDecl}
    (h : (optionEntry s).Yields c (.again s') d) : c.view ≠ [] := by
  obtain ⟨k, c', hk, h⟩ := yields_bind.1 h
  obtain ⟨rfl, rfl⟩ := yields_kind.1 hk
  apply view_ne_nil_of_kind
  intro hend
  rw [hend] at h
  obtain ⟨u, c₁, -, h⟩ := yields_bind.1 h
  cases (yields_pure.1 h).1

theorem fileEntry_again {s s' : Bool × File} (h : (fileEntry s).Yields c (.again s') d) :
    c.view ≠ [] := by
  rcases yields_fileEntry h with ⟨-, hr, -⟩ | ⟨hview, -⟩
  · cases hr
  · exact hview

theorem segment_again {subject text text' : String}
    (h : (segment subject text).Yields c (.again text') d) : d.remaining < c.remaining := by
  obtain ⟨o, c', ho, h⟩ := yields_bind.1 h
  rcases yields_accept.1 ho with ⟨hk, rfl, rfl⟩ | ⟨-, rfl, -⟩
  · exact remaining_lt_of_advance (by rw [hk]; decide) h.leads
  · cases (yields_pure.1 h).1

/-- Whether the items of a list, and the options behind them, read the token they begin with. -/
structure ListForm.Moves (form : ListForm σ) : Prop where
  item : ∀ s c, Ensures c (form.item s) fun _ d => c.advance.Leads d
  options : ∀ f ∈ form.options?, ∀ s c, Ensures c (f s) fun _ d => c.advance.Leads d

theorem listEntry_again {form : ListForm σ} (hform : form.Moves) (s : Bool × σ) :
    Ensures c (listEntry form s) fun r d => ∀ s', r = .again s' → d.remaining < c.remaining := by
  obtain ⟨wanted, s⟩ := s
  refine .ask (.ite (fun _ => ?_) fun _ => .ite (fun _ => ?_) fun hopen => ?_)
  · exact .ite (fun _ => .next fun _ _ _ => .next fun _ _ _ => .pure nofun)
      fun _ => .next fun _ _ _ => .pure nofun
  · exact .next fun _ _ _ => .pure nofun
  · -- Every other round reads the next token, or passes over it after a report.
    have hmoved : ∀ {d s'}, c.advance.Leads d → ∀ s₁ : Bool × σ, Round.again s' = .again s₁ →
        d.remaining < c.remaining :=
      fun hd _ _ => remaining_lt_of_advance (fun hend => hopen (.inr hend)) hd
    have hskip : ∀ {wanted : Wanted} {s' : Bool × σ}, Ensures c
        (report wanted >>= fun _ => skip >>= fun _ => pure (Round.again s'))
        fun r d => ∀ s', r = Round.again s' → d.remaining < c.remaining := by
      refine .next fun _ c₁ h₁ => .next fun _ c₂ h₂ => .pure (hmoved ?_)
      rw [yields_skip.1 h₂]
      exact h₁.leads.advance
    refine .ite (fun _ => .ite (fun _ => ?_) fun _ => hskip) fun _ => .ite (fun _ => ?_) fun _ => ?_
    · exact .bind (hform.item s c) fun _ _ _ h => .pure (hmoved h)
    · refine .next fun _ c₁ h₁ => .pure (hmoved ?_)
      rw [yields_skip.1 h₁]
      exact .refl _
    · split
      · rename_i options _ hsome
        exact .bind (hform.options options hsome s c) fun _ _ _ h => .pure (hmoved h)
      · exact hskip

theorem moves_numberOrRange : Ensures c numberOrRange fun _ d => c.advance.Leads d :=
  .take fun _ _ h => h.leads

theorem reservedForm_moves : reservedForm.Moves where
  item s c := by
    refine .ask (.ite (fun _ => .take (.pure (.refl _))) fun _ => ?_)
    refine .bind moves_numberOrRange fun n c₁ _ h => ?_
    cases n <;> exact .pure h
  options := nofun

theorem extensionForm_moves : extensionForm.Moves where
  item s c := by
    refine .bind moves_numberOrRange fun n c₁ _ h => ?_
    cases n <;> exact .pure h
  options f hf s c := by
    obtain rfl := Option.some.inj hf
    refine .next fun o c₁ ho => .pure ?_
    obtain ⟨u, c₂, hu, ho⟩ := yields_bind.1 ho
    rw [yields_skip.1 hu] at ho
    exact ho.leads

/-- The rounds of these loops go on by what they read. -/
theorem ReadingLoop.remaining_lt {round : σ → Parser (Round σ)} (h : ReadingLoop round) {s s' : σ}
    (hround : (round s).Yields c (.again s') d) : d.remaining < c.remaining := by
  cases h with
  | reserved => exact listEntry_again reservedForm_moves s _ _ hround s' rfl
  | extensions => exact listEntry_again extensionForm_moves s _ _ hround s' rfl
  | name => exact segment_again hround

/-- No loop goes on at the end of the file. -/
theorem BodyLoop.view_ne_nil {round : σ → Parser (Round σ)} (h : BodyLoop round) {s s' : σ}
    (hround : (round s).Yields c (.again s') d) : c.view ≠ [] := by
  have hreading : ReadingLoop round → c.view ≠ [] := fun h =>
    view_ne_nil_of_remaining_lt hround.leads (h.remaining_lt hround)
  cases h with
  | file => exact fileEntry_again hround
  | options => exact optionEntry_again hround
  | reserved => exact hreading .reserved
  | extensions => exact hreading .extensions
  | name subject => exact hreading (.name subject)
  | message | oneof | extend | enum | service | method => exact blockEntry_again hround

end Parser

/-! ## Whole lists -/

open ProtoDecl.Schema.Parser ProtoDecl.Schema.Cursor

/-- What is expected of the reading of a list of tokens. -/
structure Progresses (tokens : List Token) : Prop where
  /-- The reading begins in the list. -/
  start : ∃ i, At tokens i (ofTokens tokens)
  /-- Where a cursor stands is a place in the list, and what is there is no comment. -/
  valid : ∀ i c, At tokens i c →
    i < (completed tokens).length ∧ (completed tokens)[i]? = some c.current ∧
      c.current.kind ≠ .comment
  /-- No parser moves back. -/
  onward : ∀ {α : Type} (p : Parser α) i c, At tokens i c →
    ∃ j, i ≤ j ∧ At tokens j (p.run c).2
  /-- A round of a loop leaves the loop, or the next one begins further on. -/
  rounds : ∀ {σ : Type} {round : σ → Parser (Round σ)}, BodyLoop round → ∀ s s' i c d,
    At tokens i c → (round s).Yields c (.again s') d → ∃ j, i < j ∧ At tokens j (resume c d)
  /-- In some loops that is because of what the round has read. -/
  reading : ∀ {σ : Type} {round : σ → Parser (Round σ)}, ReadingLoop round → ∀ s s' i c d,
    At tokens i c → (round s).Yields c (.again s') d → ∃ j, i < j ∧ At tokens j d
  /-- The rounds of a loop come to an end, and that is what the loop yields. -/
  loops : ∀ {σ : Type} {round : σ → Parser (Round σ)}, BodyLoop round → ∀ s c,
    Rounds round s c ((loop round s).run c)
  /-- Messages within messages are read as they are, to a depth that the tokens bound. -/
  messages : ∀ c, message.run c = (messageWith message).run c ∧
    ∀ (base : Parser Message) n, c.remaining < n → (messageWith^[n] base).run c = message.run c
  /-- So are types within types. -/
  types : ∀ c, fieldType.run c = (fieldTypeWith fieldType).run c ∧
    ∀ (base : Parser FieldType) n, c.remaining < n →
      (fieldTypeWith^[n] base).run c = fieldType.run c
  /-- The reading ends at the first end of the file, where the file ends too. -/
  ends : ∃ before e after s d, completed tokens = before ++ e :: after ∧
    (∀ t ∈ before, t.kind ≠ .endOfFile) ∧ e.kind = .endOfFile ∧
    (fileStatements (true, {})).run (ofTokens tokens) = (some s, d) ∧ At tokens before.length d ∧
    (parse tokens).file.span = ⟨1, 1, 0, e.span.stop⟩

/-- A cursor that has read everything stands at the first end of the file. -/
theorem first_endOfFile {tokens : List Token} {i : Nat} {c : Cursor} (h : At tokens i c)
    (hview : c.view = []) : ∃ before after, completed tokens = before ++ c.current :: after ∧
      (∀ t ∈ before, t.kind ≠ .endOfFile) ∧ c.current.kind = .endOfFile ∧ i = before.length := by
  have hlength := h.length_eq
  refine ⟨(completed tokens).take i, (completed tokens).drop (i + 1), ?_, h.passed,
    current_kind_eq_endOfFile_iff.2 hview, ?_⟩
  · obtain ⟨hi, hcurrent⟩ := List.getElem?_eq_some_iff.1 h.getElem?_eq
    rw [← hcurrent, ← List.drop_eq_getElem_cons hi, List.take_append_drop]
  · rw [List.length_take]
    omega

/-- Reading makes progress on every list of tokens, and comes to its end. -/
theorem parse_progresses (tokens : List Token) : Progresses tokens where
  start := at_ofTokens tokens
  valid i c h := by
    have hlength := h.length_eq
    exact ⟨by omega, h.getElem?_eq, current_kind_ne_comment c⟩
  onward p i c h := h.leads (p.fair c).leads
  rounds hloop s s' i c d h hround := by
    refine h.leads_lt (hround.leads.trans (leads_resume c d)) ?_
    exact remaining_resume_lt hround.leads (hloop.view_ne_nil hround)
  reading hloop s s' i c d h hround := h.leads_lt hround.leads (hloop.remaining_lt hround)
  loops hloop := rounds_of_view fun _ _ _ _ => hloop.view_ne_nil
  messages c := ⟨recursive_eq_step messageWith_local _ c,
    fun base n h => iterate_eq_recursive messageWith_local _ base h⟩
  types c := ⟨recursive_eq_step fieldTypeWith_local _ c,
    fun base n h => iterate_eq_recursive fieldTypeWith_local _ base h⟩
  ends := by
    obtain ⟨s, d, hrun⟩ := total_fileStatements (true, {}) (ofTokens tokens)
    obtain ⟨i, hstart⟩ := at_ofTokens tokens
    obtain ⟨j, -, hd⟩ := hstart.leads hrun.leads
    obtain ⟨before, after, hsplit, hbefore, hkind, hj⟩ :=
      first_endOfFile hd (view_of_fileStatements hrun)
    refine ⟨before, d.current, after, s, d, hsplit, hbefore, hkind, hrun, hj ▸ hd, ?_⟩
    rw [parse, hrun]

end ProtoDecl.Schema
