import ProtoDecl.Proofs.Provenance.Nodes

/-!
# What the nodes of a file are read from

Every production tells its node: the literals in it are tokens as they stand, and where no error was
reported, it covers the words of its rule.  Declarations are read from their keyword on, so they are
asked about only where it is next.

Messages are read by a parser that calls itself.  What an inner message is read from is known by its
rule, and what it owns by the induction, on the number of tokens left (`owns_message`).
-/

namespace ProtoDecl.Schema.Parser

variable {σ : Type} {c : Cursor} {tokens : List Token} {errors : List SyntaxError} {small : Bool}

/-! ## Tokens -/

theorem told_textOf (hc : (within tokens).holds c) (hk : c.current.kind = .text) :
    Told tokens errors small (.text (textOf c.current)) :=
  told_current hc (by simp [hk]) rfl rfl ⟨c.current, rfl, hk, rfl⟩

theorem told_numberOf (hc : (within tokens).holds c) (hk : c.current.kind = .number) :
    Told tokens errors small (.number (numberOf c.current)) :=
  told_current hc (by simp [hk]) rfl rfl ⟨c.current, rfl, hk, rfl⟩

/-- A keyword that is kept as a name, in small letters. -/
theorem told_wordOf (hc : (within tokens).holds c) {k : Keyword}
    (hk : c.current.kind = .keyword k) :
    Told tokens errors true (.name (wordOf c.current)) := by
  have hparts : ∀ t ∈ [c.current], t.kind.isNamePart = true := by
    simp [hk, Kind.isNamePart, Kind.isName]
  exact told_current hc (by simp [hk]) rfl rfl ⟨by simp, hparts, by simp [wordOf, spelling]⟩

/-! ## Names and options -/

theorem tells_name {subject : String} : Tells tokens errors c (name subject) .name := by
  intro hc n d hy _
  obtain ⟨hname, rfl, -⟩ := yields_name.1 hy
  have hword := Spelt.name hname
  exact told_current hc (ne_endOfFile_of_isName hname) rfl rfl
    ⟨by simp, hword.parts, (spelling_singleton _).symm⟩

theorem tells_dottedName {subject : String} : Tells tokens errors c (dottedName subject) .name :=
  told_of_parses (parses_dottedName subject)
    (.ask (.next fun _ _ _ => .next fun _ _ _ => .ask (.pure rfl))) dottedName_begins
    Grammar.spelt_dottedName

theorem tells_typeName {subject : String} : Tells tokens errors c (typeName subject) .name :=
  told_of_parses (parses_typeName subject)
    (.ask (.next fun _ _ _ => .next fun _ _ _ => .next fun _ _ _ => .ask (.pure rfl)))
    typeName_begins Grammar.spelt_typeName

theorem tells_optionName : Tells tokens errors c optionName .name := by
  refine told_of_parses parses_optionName (.accept (fun _ => ?_) ?_) optionName_begins
    Grammar.spelt_optionName
  · exact .next fun _ _ _ => .next fun _ _ _ => .next fun _ _ _ => .ask (.pure rfl)
  · exact .ask (.next fun _ _ _ => .next fun _ _ _ => .ask (.pure rfl))

theorem tells_optionValue :
    Keeps (within tokens) errors c optionValue fun value =>
      ∀ v ∈ value, Told tokens errors false (.ofConstant v) := by
  have hflag (value : Bool) (hc : (within tokens).holds c)
      (hk : c.current.kind = .keyword (if value then .trueWord else .falseWord)) :
      Told tokens errors false (.flag ⟨value, c.current.span⟩) :=
    told_current hc (by simp [hk]) rfl rfl ⟨c.current, rfl, hk⟩
  refine .ask ?_
  split
  · rename_i hk
    exact .take fun hc => .pure fun v hv => Option.some.inj hv ▸ told_textOf hc hk
  · rename_i hk
    exact .take fun hc => .pure fun v hv => Option.some.inj hv ▸ told_numberOf hc hk
  · rename_i hk
    exact .take fun hc => .pure fun v hv => Option.some.inj hv ▸ hflag true hc hk
  · rename_i hk
    exact .take fun hc => .pure fun v hv => Option.some.inj hv ▸ hflag false hc hk
  · exact .next fun _ _ => .ite (fun _ => .next fun _ _ => .pure nofun) fun _ => .pure nofun

theorem tells_assignment : Tells tokens errors c assignment .option := by
  refine .ask (.bind tells_optionName fun name _ _ hname => .next fun _ _ => ?_)
  refine .bind tells_optionValue fun value _ _ hvalue => .ask (.pure ⟨False.elim, ?_⟩)
  simpa [Node.parts, Node.lowers, hname] using hvalue

theorem tells_optionStatement : Tells tokens errors c optionStatement .option :=
  .next fun _ _ => .bind tells_assignment fun _ _ _ ho => .next fun _ _ => .pure ho

theorem tells_optionList :
    Keeps (within tokens) errors c optionList fun os =>
      ∀ o ∈ os, Told tokens errors false (.option o) := by
  refine .next fun _ _ => .loop (fun os c hos => .ask ?_) (by simp)
  split
  · exact .next fun _ _ => .pure hos
  · exact .next fun _ _ => .pure hos
  · exact .next fun _ _ => .pure hos
  · exact .next fun _ _ => .pure hos
  · refine .bind tells_assignment.attempt.moving fun result _ _ hresult => ?_
    have hmore : ∀ o ∈ os ++ result.1.toList, Told tokens errors false (.option o) :=
      List.forall_mem_append.2 ⟨hos, fun o ho => hresult o (Option.mem_toList.1 ho)⟩
    exact .ite (fun _ => .next fun _ _ => .pure hmore) fun _ => .pure hmore

theorem tells_options :
    Keeps (within tokens) errors c options fun os =>
      ∀ o ∈ os, Told tokens errors false (.option o) :=
  .ask (.ite (fun _ => tells_optionList) fun _ => .pure (by simp))

/-! ## Lists of numbers -/

theorem tells_numberOrRange (hk : c.current.kind = .number) :
    Keeps (within tokens) errors c numberOrRange fun
      | .number n => Told tokens errors false (.number n)
      | .range r => Told tokens errors false (.range r) := by
  refine .take fun hc => .next fun o c₁ => ?_
  cases o with
  | none => exact .pure (told_numberOf hc hk)
  | some t =>
    have hfirst : Told tokens errors true (.number (numberOf c.current)) := told_numberOf hc hk
    refine .ask ?_
    split
    · rename_i hk₁
      refine .take fun hc₁ => .ask (.pure ⟨False.elim, ?_⟩)
      simp [Node.parts, Node.lowers, Node.ofRangeEnd, hfirst, told_numberOf hc₁ hk₁]
    · rename_i hk₁
      refine .take fun hc₁ => .ask (.pure ⟨False.elim, ?_⟩)
      simp [Node.parts, Node.lowers, Node.ofRangeEnd, hfirst, told_wordOf hc₁ hk₁]
    · exact .next fun _ _ => .pure (told_numberOf hc hk)

/-- Items are read where a token that begins one is next. -/
theorem Keeps.listItems {K : Lasting} {form : ListForm σ} {I : σ → Prop}
    (hitem : ∀ s c, c.current.kind ∈ form.starts → I s → Keeps K errors c (form.item s) I)
    (hoptions : ∀ read ∈ form.options?, ∀ s c, I s → Keeps K errors c (read s) I) {s : Bool × σ}
    (h : I s.2) : Keeps K errors c (Parser.listItems form s) fun s => I s.2 := by
  refine .loop (fun s c hs => ?_) h
  obtain ⟨wanted, s⟩ := s
  refine .ask (.ite (fun _ => ?_) fun _ => .ite (fun _ => .next fun _ _ => .pure hs) fun _ => ?_)
  · cases wanted with
    | true => exact .next fun _ _ => .next fun _ _ => .pure hs
    | false => exact .next fun _ _ => .pure hs
  · refine .ite (fun _ => .ite (fun hstarts => ?_) fun _ => ?_) fun _ =>
      .ite (fun _ => .next fun _ _ => .pure hs) fun _ => ?_
    · exact .bind (hitem s c hstarts hs) fun _ _ _ hs' => .pure hs'
    · exact .next fun _ _ => .next fun _ _ => .pure hs
    · split
      · rename_i read _ hread
        exact .bind (hoptions read hread s c hs) fun _ _ _ hs' => .pure hs'
      · exact .next fun _ _ => .next fun _ _ => .pure hs

theorem tells_reserved (hk : c.current.kind = .keyword .reserved) :
    Tells tokens errors c reserved .reserved := by
  refine .of_parses (parses_reserved hk) (fun _ => id) (fun _ _ => Grammar.reserved_ends _ _)
    (.take (.next fun _ _ _ => .ask (.pure rfl))) (.next fun _ _ => ?_)
  refine .bind (.listItems (I := fun items =>
    ∀ item ∈ items, Told tokens errors false (.ofReservedItem item)) ?_ nofun (by simp))
    fun s _ _ hs => .ask (.pure (by simpa [Node.Owns, Node.parts, Node.lowers] using hs))
  intro items c hstarts hitems
  have hmore : ∀ item, Told tokens errors false (.ofReservedItem item) →
      ∀ i ∈ items ++ [item], Told tokens errors false (.ofReservedItem i) :=
    fun item hitem => List.forall_mem_append.2 ⟨hitems, List.forall_mem_singleton.2 hitem⟩
  refine .ask (.ite (fun hk => .take fun hc => .pure (hmore _ (told_textOf hc hk))) fun hk => ?_)
  have hnumber : c.current.kind = .number := by
    simpa [reservedForm, show c.current.kind ≠ .text from hk] using hstarts
  refine .bind (tells_numberOrRange hnumber) fun n _ _ hn => ?_
  cases n with
  | number n => exact .pure (hmore _ hn)
  | range r => exact .pure (hmore _ hn)

theorem tells_extensionList : Tells tokens errors c extensionList .extensions := by
  refine .next fun _ _ => .bind (.listItems (I := fun lists =>
    (∀ r ∈ lists.1, Told tokens errors false (.ofExtensionRange r)) ∧
      ∀ o ∈ lists.2, Told tokens errors false (.option o)) ?_ ?_ (by simp))
    fun s _ _ hs => .ask (.pure ⟨False.elim, by simpa [Node.parts, Node.lowers] using hs⟩)
  · intro lists c hstarts hlists
    have hmore : ∀ range, Told tokens errors false (.ofExtensionRange range) →
        (∀ r ∈ lists.1 ++ [range], Told tokens errors false (.ofExtensionRange r)) ∧
          ∀ o ∈ lists.2, Told tokens errors false (.option o) :=
      fun range hrange =>
        ⟨List.forall_mem_append.2 ⟨hlists.1, List.forall_mem_singleton.2 hrange⟩, hlists.2⟩
    refine .bind (tells_numberOrRange (List.mem_singleton.1 hstarts)) fun n _ _ hn => ?_
    cases n with
    | number n => exact .pure (hmore _ hn)
    | range r => exact .pure (hmore _ hn)
  · intro read hread lists c hlists
    obtain rfl := Option.some.inj hread
    refine .bind tells_optionList fun os _ _ hos => .pure ⟨hlists.1, ?_⟩
    exact List.forall_mem_append.2 ⟨hlists.2, hos⟩

/-! ## Fields -/

theorem tells_fieldType : Tells tokens errors c fieldType .fieldType := by
  refine .recursive fieldTypeWith_local _ fun inner hinner c => ?_
  refine .ask (.ask (.ite (fun hmap => ?_) fun _ => ?_))
  · have hk : c.current.kind = .keyword .map := by
      simp only [Cursor.startsMap, Bool.and_eq_true, beq_iff_eq] at hmap
      exact hmap.1
    refine .take fun hc => .next fun _ c₁ => .bind (hinner c₁) fun key _ _ hkey => ?_
    refine .next fun _ c₂ => .bind (hinner c₂) fun value _ _ hvalue => .next fun _ _ => ?_
    -- Nothing is said of types themselves, so it does not matter that they stand under a map.
    have hunder {t : FieldType} (ht : Told tokens errors false (.fieldType t)) :
        Told tokens errors true (.fieldType t) := ⟨False.elim, ht.owns⟩
    refine .ask (.pure ⟨False.elim, ?_⟩)
    simp [Node.parts, Node.lowers, told_wordOf hc hk, hunder hkey, hunder hvalue]
  · refine .bind tells_typeName fun name _ _ hname => .pure ⟨False.elim, ?_⟩
    simpa [Node.parts, Node.lowers] using hname

theorem tells_integer {subject : String} {fault : String → Span → SyntaxError} :
    Tells tokens errors c (integer subject fault) .number := by
  refine .expectAs fun hc hk => .ite (fun _ => .pure (told_numberOf hc hk)) fun _ => ?_
  exact fun _ _ _ hy => absurd hy not_yields_reject

theorem tells_fieldLabel :
    Keeps (within tokens) errors c fieldLabel fun label =>
      ∀ l ∈ label, Told tokens errors false (.fieldLabel l) := by
  refine .ask ?_
  split
  · rename_i label hlabel
    have hk : c.current.kind ≠ .endOfFile := by
      intro hend
      rw [hend] at hlabel
      cases hlabel
    refine .take fun hc => .pure fun l hl => ?_
    obtain rfl := Option.some.inj hl
    exact told_current hc hk rfl rfl ⟨c.current, rfl, hlabel⟩
  · exact .pure nofun

theorem tells_field : Tells tokens errors c field .field := by
  refine .of_parses parses_field (fun _ => id) (fun _ _ => Grammar.field_ends _ _) (.ask ?_) ?_
  · exact .next fun _ _ _ => .next fun _ _ _ => .next fun _ _ _ => .next fun _ _ _ =>
      .next fun _ _ _ => .next fun _ _ _ => .next fun _ _ _ => .ask (.pure rfl)
  refine .ask (.bind tells_fieldLabel fun label _ _ hlabel => ?_)
  refine .bind tells_fieldType fun type _ _ htype => .bind tells_name fun name _ _ hname => ?_
  refine .next fun _ _ => .bind tells_integer fun number _ _ hnumber => ?_
  refine .bind tells_options fun options _ _ hoptions => .next fun _ _ => .ask (.pure ?_)
  simpa [Node.Owns, Node.parts, Node.lowers, htype, hname, hnumber] using ⟨hlabel, hoptions⟩

/-! ## Enums -/

theorem tells_enumValue : Tells tokens errors c enumValue .enumValue := by
  refine .of_parses parses_enumValue (fun _ => id) (fun _ _ => Grammar.enumValue_ends _ _)
    (.ask ?_) ?_
  · exact .next fun _ _ _ => .next fun _ _ _ => .next fun _ _ _ => .next fun _ _ _ =>
      .next fun _ _ _ => .ask (.pure rfl)
  refine .ask (.bind tells_name fun name _ _ hname => .next fun _ _ => ?_)
  refine .bind tells_integer fun number _ _ hnumber => ?_
  refine .bind tells_options fun options _ _ hoptions => .next fun _ _ => .ask (.pure ?_)
  simpa [Node.Owns, Node.parts, Node.lowers, hname, hnumber] using hoptions

theorem reserved_kind (h : c.startsReserved = true) : c.current.kind = .keyword .reserved := by
  simp only [Cursor.startsReserved, Bool.and_eq_true, beq_iff_eq] at h
  exact h.1

theorem owns_enumStatement {decl : EnumDecl}
    (h : (Node.enum decl).Owns (Told tokens errors false)) :
    Keeps (within tokens) errors c (enumStatement decl) fun decl =>
      (Node.enum decl).Owns (Told tokens errors false) := by
  refine .ask (.ite (fun _ => ?_) fun _ => .ask (.ite (fun hreserved => ?_) fun _ => ?_))
  · exact h.added .enum tells_optionStatement (by simp [Node.parts])
  · refine .bind (tells_reserved (reserved_kind hreserved)) fun r _ _ hr => .pure ?_
    exact h.grow (List.forall_mem_singleton.2 hr) (by simp [Node.parts])
  · exact h.added .enum tells_enumValue (by simp [Node.parts])

theorem tells_enumDecl (hk : c.current.kind = .keyword .enum) :
    Tells tokens errors c enumDecl .enum := by
  refine .of_parses (parses_enumDecl hk) (fun _ => id) (fun _ _ => Grammar.enumDecl_enclosed)
    (.take (.next fun _ _ _ => .next fun _ _ _ => .ask (.pure rfl))) ?_
  refine .next fun _ _ => .bind tells_name fun name _ _ hname => ?_
  refine .bind (.body (fun _ _ h => owns_enumStatement h) ?_) fun decl _ _ h => .ask (.pure h)
  simpa [Node.Owns, Node.parts] using hname

/-! ## Messages -/

theorem owns_oneofStatement {decl : Oneof} (h : (Node.oneof decl).Owns (Told tokens errors false)) :
    Keeps (within tokens) errors c (oneofStatement decl) fun decl =>
      (Node.oneof decl).Owns (Told tokens errors false) := by
  refine .ask (.ite (fun _ => ?_) fun _ => ?_)
  · exact h.added .oneof tells_optionStatement (by simp [Node.parts])
  · exact h.added .oneof tells_field (by simp [Node.parts])

theorem tells_oneof (hk : c.current.kind = .keyword .oneof) :
    Tells tokens errors c oneof .oneof := by
  refine .of_parses (parses_oneof hk) (fun _ => id) (fun _ _ => Grammar.oneof_enclosed)
    (.take (.next fun _ _ _ => .next fun _ _ _ => .ask (.pure rfl))) ?_
  refine .next fun _ _ => .bind tells_name fun name _ _ hname => ?_
  refine .bind (.body (fun _ _ h => owns_oneofStatement h) ?_) fun decl _ _ h => .ask (.pure h)
  simpa [Node.Owns, Node.parts] using hname

theorem owns_extendStatement {decl : Extend}
    (h : (Node.extend decl).Owns (Told tokens errors false)) :
    Keeps (within tokens) errors c (extendStatement decl) fun decl =>
      (Node.extend decl).Owns (Told tokens errors false) :=
  h.added .extend tells_field (by simp [Node.parts])

theorem tells_extend (hk : c.current.kind = .keyword .extend) :
    Tells tokens errors c extend .extend := by
  refine .of_parses (parses_extend hk) (fun _ => id) (fun _ _ => Grammar.extend_enclosed)
    (.take (.next fun _ _ _ => .next fun _ _ _ => .ask (.pure rfl))) ?_
  refine .next fun _ _ => .bind tells_typeName fun name _ _ hname => ?_
  refine .bind (.body (fun _ _ h => owns_extendStatement h) ?_) fun decl _ _ h => .ask (.pure h)
  simpa [Node.Owns, Node.parts] using hname

/-- Extension lists of one message are gathered into one. -/
theorem told_mergeExtensions {before : Option Extensions} {list : Extensions}
    (hbefore : ∀ e ∈ before, Told tokens errors false (.extensions e))
    (hlist : Told tokens errors false (.extensions list)) :
    Told tokens errors false (.extensions (mergeExtensions before list)) := by
  cases before with
  | none => exact hlist
  | some e =>
    have hparts := (hbefore e rfl).owns
    have hparts' := hlist.owns
    simp only [Node.Owns, Node.parts, List.forall_mem_cons] at hparts hparts'
    refine ⟨False.elim, ?_⟩
    simp only [Node.parts, mergeExtensions, List.map_append, List.forall_mem_cons,
      List.forall_mem_append]
    exact ⟨⟨hparts.1, hparts'.1⟩, ⟨hparts.2.1, hparts'.2.1⟩, by simp⟩

theorem owns_messageStatement {inner : Parser Message}
    (hinner : c.current.kind = .keyword .message → Tells tokens errors c inner .message)
    {decl : Message} (h : (Node.message decl).Owns (Told tokens errors false)) :
    Keeps (within tokens) errors c (messageStatement inner decl) fun decl =>
      (Node.message decl).Owns (Told tokens errors false) := by
  have hopens := opens_classify c
  refine .ask ?_
  split <;> rename_i hclass <;> rw [hclass] at hopens
  · exact h.added .message (hinner hopens) (by simp [Node.parts])
  · exact h.added .message (tells_enumDecl hopens) (by simp [Node.parts])
  · exact h.added .message (tells_oneof hopens) (by simp [Node.parts])
  · exact h.added .message (tells_extend hopens) (by simp [Node.parts])
  · exact h.added .message tells_optionStatement (by simp [Node.parts])
  · refine .bind tells_extensionList fun list _ _ hlist => .pure ?_
    have hbefore : ∀ e ∈ decl.extensions, Told tokens errors false (.extensions e) := by
      intro e he
      have hpart : (decl.extensions.map Node.extensions).toList ∈ (Node.message decl).parts := by
        simp [Node.parts]
      exact h _ hpart _ (by simp [Option.mem_def.1 he])
    have hmerged := List.forall_mem_singleton.2 (told_mergeExtensions hbefore hlist)
    exact h.replace hmerged (by simp [Node.parts])
  · refine .bind (tells_reserved hopens) fun r _ _ hr => .pure ?_
    exact h.grow (List.forall_mem_singleton.2 hr) (by simp [Node.parts])
  · exact h.added .message tells_field (by simp [Node.parts])

theorem covered_message (hk : c.current.kind = .keyword .message) :
    Keeps (within tokens) errors c message fun m =>
      (Node.message m).Covered tokens errors false := by
  refine covered_of_parses (parses_message c hk) (fun _ => id) (fun m d hy => ?_)
    fun _ _ hw _ => Grammar.message_enclosed hw
  have hspan : Ensures c (messageWith message) fun m d =>
      m.span = d.spanFrom c.current.span :=
    .take (.next fun _ _ _ => .next fun _ _ _ => .ask (.pure rfl))
  rw [Yields, message, recursive_eq_step messageWith_local] at hy
  exact hspan m d hy

/-- By induction on the number of tokens left: messages inside have fewer of them. -/
theorem owns_message (hk : c.current.kind = .keyword .message) :
    Keeps (within tokens) errors c message fun m =>
      (Node.message m).Owns (Told tokens errors false) := by
  refine .recursive_at (C := fun c => c.current.kind = .keyword .message) messageWith_local _
    (fun c hk ih => ?_) hk
  refine .take fun _ => .bind tells_name fun name c₁ hname htold => ?_
  have hlt : c₁.remaining < c.remaining :=
    Nat.lt_of_le_of_lt hname.leads.remaining_le (remaining_advance_lt_of_kind (by simp [hk]))
  refine .bind (.below hlt (.body (I := fun decl =>
    (Node.message decl).Owns (Told tokens errors false)) (fun decl d h => ?_) ?_))
    fun decl _ _ h => .ask (.pure h)
  · exact .of_below fun hd => owns_messageStatement
      (fun hk => .of_owns (covered_message hk) (ih d hd hk)) h
  · simpa [Node.Owns, Node.parts, emptyMessage] using htold

theorem tells_message (hk : c.current.kind = .keyword .message) :
    Tells tokens errors c message .message :=
  .of_owns (covered_message hk) (owns_message hk)

/-! ## Services -/

theorem tells_methodType {what : String} :
    Keeps (within tokens) errors c (methodType what) fun type =>
      Told tokens errors false (.name type.2) := by
  refine .next fun _ _ => .ask (.ite (fun _ => .next fun _ _ => ?_) fun _ => ?_)
  · exact .bind tells_typeName fun _ _ _ htype => .next fun _ _ => .pure htype
  · exact .bind tells_typeName fun _ _ _ htype => .next fun _ _ => .pure htype

theorem tells_methodStatement {os : List OptionDecl}
    (h : ∀ o ∈ os, Told tokens errors false (.option o)) :
    Keeps (within tokens) errors c (methodStatement os) fun os =>
      ∀ o ∈ os, Told tokens errors false (.option o) := by
  refine .ask (.ite (fun _ => ?_) fun _ => .next fun _ _ => .next fun _ _ => .pure h)
  refine .bind tells_optionStatement.attempt fun o? _ _ ho => .pure ?_
  exact List.forall_mem_append.2 ⟨h, fun o hmem => ho o (Option.mem_toList.1 hmem)⟩

theorem tells_methodEnd {name : String} :
    Keeps (within tokens) errors c (methodEnd name) fun os =>
      ∀ o ∈ os, Told tokens errors false (.option o) := by
  refine .next fun o _ => ?_
  cases o with
  | some t => exact .block (fun os _ h => tells_methodStatement h) (by simp)
  | none => exact .next fun _ _ => .pure (by simp)

theorem tells_method : Tells tokens errors c method .method := by
  refine .next fun _ _ => .bind tells_name fun name _ _ hname => ?_
  refine .bind tells_methodType fun request _ _ hrequest => .next fun _ _ => ?_
  refine .bind tells_methodType fun response _ _ hresponse => ?_
  refine .bind tells_methodEnd fun options _ _ hoptions => .ask (.pure ⟨False.elim, ?_⟩)
  simpa [Node.parts, Node.lowers, hname, hrequest, hresponse] using hoptions

theorem owns_serviceStatement {decl : Service}
    (h : (Node.service decl).Owns (Told tokens errors false)) :
    Keeps (within tokens) errors c (serviceStatement decl) fun decl =>
      (Node.service decl).Owns (Told tokens errors false) := by
  refine .ask ?_
  split
  · exact h.added .service tells_optionStatement (by simp [Node.parts])
  · exact h.added .service tells_method (by simp [Node.parts])
  · exact .next fun _ _ => .next fun _ _ => .pure h

theorem tells_service (hk : c.current.kind = .keyword .service) :
    Tells tokens errors c service .service := by
  refine .of_parses (parses_service hk) (fun _ => id) (fun _ _ => Grammar.service_enclosed)
    (.take (.next fun _ _ _ => .next fun _ _ _ => .ask (.pure rfl))) ?_
  refine .next fun _ _ => .bind tells_name fun name _ _ hname => ?_
  refine .bind (.body (fun _ _ h => owns_serviceStatement h) ?_) fun decl _ _ h => .ask (.pure h)
  simpa [Node.Owns, Node.parts] using hname

/-! ## Files -/

theorem tells_edition (hk : c.current.kind = .keyword .syntaxWord) :
    Tells tokens errors c edition .edition := by
  refine .of_parses (parses_edition hk) (fun _ => id) (fun _ _ => Grammar.edition_ends _ _)
    (.take (.next fun _ _ _ => .next fun _ _ _ => .next fun _ _ _ => .ask (.pure rfl))) ?_
  refine .next fun _ _ => .next fun _ _ => .expectAs fun hc hk => .next fun _ _ => ?_
  refine .ask (.pure ?_)
  simpa [Node.Owns, Node.parts, Node.lowers] using told_textOf hc hk

theorem tells_package (hk : c.current.kind = .keyword .package) :
    Tells tokens errors c package .package := by
  refine .of_parses (parses_package hk) (fun _ => id) (fun _ _ => Grammar.package_ends _ _)
    (.take (.next fun _ _ _ => .next fun _ _ _ => .ask (.pure rfl))) ?_
  refine .next fun _ _ => .bind tells_dottedName fun name _ _ hname => .next fun _ _ => ?_
  refine .ask (.pure ?_)
  simpa [Node.Owns, Node.parts, Node.lowers] using hname

theorem tells_importStatement (hk : c.current.kind = .keyword .importWord) :
    Tells tokens errors c importStatement .importDecl := by
  refine .of_parses (parses_importStatement hk) (fun _ => id)
    (fun _ _ => Grammar.importStatement_ends _ _)
    (.take (.next fun _ _ _ => .next fun _ _ _ => .next fun _ _ _ => .ask (.pure rfl))) ?_
  refine .next fun _ _ => .next fun _ _ => .expectAs fun hc hk => .next fun _ _ => ?_
  refine .ask (.pure ?_)
  simpa [Node.Owns, Node.parts, Node.lowers] using told_textOf hc hk

theorem owns_editionStatement (hk : c.current.kind = .keyword .syntaxWord) {isFirst : Bool}
    {file : File} (h : (Node.file file).Owns (Told tokens errors false)) :
    Keeps (within tokens) errors c (editionStatement isFirst file) fun file =>
      (Node.file file).Owns (Told tokens errors false) := by
  refine .bind (tells_edition hk).attempt fun o _ _ ho => .ite (fun _ => .pure ?_) fun _ => ?_
  · have hedition : ∀ child ∈ (o.map Node.edition).toList, Told tokens errors false child := by
      simpa using ho
    exact h.replace hedition (by simp [Node.parts])
  · cases o with
    | some late => exact .next fun _ _ => .pure h
    | none => exact .pure h

theorem owns_packageStatement (hk : c.current.kind = .keyword .package) {file : File}
    (h : (Node.file file).Owns (Told tokens errors false)) :
    Keeps (within tokens) errors c (packageStatement file) fun file =>
      (Node.file file).Owns (Told tokens errors false) := by
  refine .bind (tells_package hk).attempt fun o _ _ ho => ?_
  cases o with
  | none => exact .pure h
  | some package =>
    refine .ite (fun _ => .next fun _ _ => .pure h) fun _ => .pure ?_
    exact h.replace (List.forall_mem_singleton.2 (ho package rfl)) (by simp [Node.parts])

theorem owns_fileStatement {isFirst : Bool} {file : File}
    (h : (Node.file file).Owns (Told tokens errors false)) :
    Keeps (within tokens) errors c (fileStatement isFirst file) fun file =>
      (Node.file file).Owns (Told tokens errors false) := by
  refine .ask ?_
  split <;> rename_i hk
  · exact owns_editionStatement hk h
  · exact owns_packageStatement hk h
  · exact h.added .file (tells_importStatement hk) (by simp [Node.parts])
  · exact h.added .file tells_optionStatement (by simp [Node.parts])
  · exact h.added .file (tells_enumDecl hk) (by simp [Node.parts])
  · exact h.added .file (tells_message hk) (by simp [Node.parts])
  · exact h.added .file (tells_service hk) (by simp [Node.parts])
  · exact h.added .file (tells_extend hk) (by simp [Node.parts])
  · exact .next fun _ _ => .pure h
  · exact .next fun _ _ => .next fun _ _ => .pure h

theorem owns_fileStatements {s : Bool × File}
    (h : (Node.file s.2).Owns (Told tokens errors false)) :
    Keeps (within tokens) errors c (fileStatements s) fun s =>
      (Node.file s.2).Owns (Told tokens errors false) := by
  refine .loop (fun s c h => ?_) h
  obtain ⟨isFirst, file⟩ := s
  refine .ask (.ite (fun _ => .pure h) fun _ => ?_)
  exact .bind (owns_fileStatement h) fun _ _ _ h => .pure h

end ProtoDecl.Schema.Parser
