import ProtoDecl.Proofs.Progress
import ProtoDecl.Proofs.WellFormed.Shape

/-!
# The tree of every source is well formed

Every production forms its node as it should be, whatever it finds: a declaration is left out of the
tree where its name or its number is missing, a name that breaks off behind a dot is kept without
the dot, and an option or a list that stays empty has been reported.  Hence every node of a file is
formed (`walk_parse_formed`), whatever the source.
-/

namespace ProtoDecl.Schema

namespace Parser

variable {σ : Type} {c : Cursor} {errors : List SyntaxError}

/-! ## Names and options -/

/-- Further segments keep a shape that goes on with dots and words. -/
theorem forms_segments {shape : List Char → Bool}
    (hshape : ∀ {text word}, shape text = true → Text.isWord word = true →
      shape (text ++ '.' :: word) = true)
    {subject text : String} (h : shape text.toList = true) :
    Forms errors c (segments subject text) fun text => shape text.toList = true := by
  refine .loop (I := fun text : String => shape text.toList = true) (fun text c htext => ?_) h
  refine .next fun o c₁ => ?_
  cases o with
  | none => exact .pure htext
  | some dot =>
    refine .ask (.ite (fun hname hc₁ => ?_) fun _ => .next fun _ _ => .pure htext)
    have hmore : shape (text ++ "." ++ c₁.current.value).toList = true := by
      rw [String.toList_append, String.toList_append, List.append_assoc]
      exact hshape htext (hc₁.word hname)
    exact Keeps.next (fun _ _ => .pure hmore) hc₁

theorem forms_dottedName {subject : String} :
    Forms errors c (dottedName subject) fun n => n.isDotted := by
  refine .ask (.bind forms_name fun first _ _ hfirst => ?_)
  refine .bind (forms_segments Text.isDotted_append (Text.isDotted_of_isWord hfirst))
    fun text _ _ htext => ?_
  exact .ask (.pure htext)

theorem forms_typeName {subject : String} :
    Forms errors c (typeName subject) fun n => n.isQualified := by
  refine .ask (.next fun dot _ => .bind forms_name fun first _ _ hfirst => ?_)
  have hdotted : Text.isDotted first.text.toList = true := Text.isDotted_of_isWord hfirst
  have hstart : Text.isQualified ((if dot.isSome then "." else "") ++ first.text).toList = true := by
    rw [String.toList_append]
    split
    · exact hdotted
    · exact Text.isQualified_of_isDotted hdotted
  refine .bind (forms_segments Text.isQualified_append hstart) fun text _ _ htext => ?_
  exact .ask (.pure htext)

theorem forms_optionValue :
    Forms errors c optionValue fun value => errors = [] → value.isSome := by
  refine .ask ?_
  split
  · exact .next fun _ _ => .pure fun _ => rfl
  · exact .next fun _ _ => .pure fun _ => rfl
  · exact .next fun _ _ => .pure fun _ => rfl
  · exact .next fun _ _ => .pure fun _ => rfl
  · refine .report fun c₁ hne => ?_
    exact .ite (fun _ => .next fun _ _ => .pure fun hnil => absurd hnil hne)
      fun _ => .pure fun hnil => absurd hnil hne

theorem forms_assignment : Forms errors c assignment fun o => Shaped errors (.option o) := by
  refine .ask (.next fun _ _ => .next fun _ _ => ?_)
  refine .bind forms_optionValue fun value _ _ hvalue => .ask (.pure ⟨hvalue, ?_⟩)
  simp [Node.parts]

theorem forms_optionStatement :
    Forms errors c optionStatement fun o => Shaped errors (.option o) :=
  .next fun _ _ => .bind forms_assignment fun _ _ _ ho => .next fun _ _ => .pure ho

theorem forms_optionList :
    Forms errors c optionList fun os => ∀ o ∈ os, Shaped errors (.option o) := by
  refine .next fun _ c₁ => .loop (fun os c hos => .ask ?_) (by simp)
  split
  · exact .next fun _ _ => .pure hos
  · exact .next fun _ _ => .pure hos
  · exact .next fun _ _ => .pure hos
  · exact .next fun _ _ => .pure hos
  · refine .bind forms_assignment.attempt.moving fun result _ _ hresult => ?_
    have hmore : ∀ o ∈ os ++ result.1.toList, Shaped errors (.option o) :=
      List.forall_mem_append.2 ⟨hos, fun o ho => hresult o (Option.mem_toList.1 ho)⟩
    exact .ite (fun _ => .next fun _ _ => .pure hmore) fun _ => .pure hmore

theorem forms_options : Forms errors c options fun os => ∀ o ∈ os, Shaped errors (.option o) :=
  .ask (.ite (fun _ => forms_optionList) fun _ => .pure (by simp))

/-! ## Lists of numbers -/

theorem forms_numberOrRange :
    Forms errors c numberOrRange fun
      | .number _ => True
      | .range r => Shaped errors (.range r) := by
  refine .next fun first _ => .next fun o c₁ => ?_
  cases o with
  | none => exact .pure trivial
  | some t =>
    refine .ask ?_
    split
    · exact .next fun last _ => .ask (.pure ⟨nofun, by simp [Node.parts]⟩)
    · rename_i hk
      refine .take fun hc => .ask (.pure ⟨fun word hword => ?_, by simp [Node.parts]⟩)
      cases hword
      exact hc.wordOf hk
    · exact .next fun _ _ => .pure trivial

/-- A list that no error was reported in has an item.  An item is wanted as long as there is none,
and a list that ends where one is wanted is reported. -/
theorem forms_listItems {form : ListForm σ} (P filled : σ → Prop)
    (hview : ∀ s c s' d, (listEntry form s).Yields c (.again s') d → c.view ≠ [])
    (hitem : ∀ s c, P s → Forms errors c (form.item s) fun s' => P s' ∧ filled s')
    (hoptions : ∀ read ∈ form.options?, ∀ s c, P s → filled s →
      Forms errors c (read s) fun s' => P s' ∧ filled s') {s : σ} (h : P s) :
    Forms errors c (listItems form (true, s)) fun s' => P s'.2 ∧ (errors = [] → filled s'.2) := by
  -- Before every round there is an item, or else one is wanted.
  refine .loop_until (I := fun s : Bool × σ => P s.2 ∧ (s.1 = true ∨ filled s.2)) hview
    (fun s c hs => ?_) ⟨h, .inl rfl⟩
  obtain ⟨wanted, s⟩ := s
  obtain ⟨hP, hfilled⟩ := hs
  have hdone : errors ≠ [] → P s ∧ (errors = [] → filled s) :=
    fun hne => ⟨hP, fun hnil => absurd hnil hne⟩
  refine .ask (.ite (fun _ => ?_) fun _ => .ite (fun _ => ?_) fun _ => ?_)
  · cases wanted with
    | true => exact .report fun _ hne => .next fun _ _ => .pure (hdone hne)
    | false =>
      have hfull : filled s := hfilled.resolve_left Bool.false_ne_true
      exact .next fun _ _ => .pure ⟨hP, fun _ => hfull⟩
  · exact .report fun _ hne => .pure (hdone hne)
  · refine .ite (fun _ => .ite (fun _ => ?_) fun _ => ?_) fun hfull =>
      .ite (fun _ => .next fun _ _ => .pure ⟨hP, .inl rfl⟩) fun _ => ?_
    · exact .bind (hitem s c hP) fun _ _ _ hs' => .pure ⟨hs'.1, .inr hs'.2⟩
    · exact .next fun _ _ => .next fun _ _ => .pure ⟨hP, hfilled⟩
    · split
      · rename_i read _ hread
        refine .bind (hoptions read hread s c hP (hfilled.resolve_left hfull)) fun _ _ _ hs' => ?_
        exact .pure ⟨hs'.1, .inr hs'.2⟩
      · exact .next fun _ _ => .next fun _ _ => .pure ⟨hP, hfilled⟩

theorem forms_reserved : Forms errors c reserved fun r => Shaped errors (.reserved r) := by
  refine .next fun t c₁ => .bind (forms_listItems
    (fun items => ∀ item ∈ items, Shaped errors (.ofReservedItem item)) (fun items => items ≠ [])
    (fun _ _ _ _ hr => BodyLoop.reserved.view_ne_nil hr) ?_ nofun (by simp))
    fun s _ _ hs => .ask (.pure ⟨hs.2, by simpa [Node.parts] using hs.1⟩)
  intro items c hitems
  have hmore : ∀ item, Shaped errors (.ofReservedItem item) →
      (∀ i ∈ items ++ [item], Shaped errors (.ofReservedItem i)) ∧ items ++ [item] ≠ [] :=
    fun item hitem =>
      ⟨List.forall_mem_append.2 ⟨hitems, List.forall_mem_singleton.2 hitem⟩, by simp⟩
  refine .ask (.ite (fun _ => .next fun t _ => .pure (hmore _ (shaped_text _))) fun _ => ?_)
  refine .bind forms_numberOrRange fun n _ _ hn => ?_
  cases n with
  | number n => exact .pure (hmore _ (shaped_number n))
  | range r => exact .pure (hmore _ hn)

theorem forms_extensionList :
    Forms errors c extensionList fun e => Shaped errors (.extensions e) := by
  refine .next fun t c₁ => .bind (forms_listItems
    (fun lists : List ExtensionRange × List OptionDecl =>
      (∀ r ∈ lists.1, Shaped errors (.ofExtensionRange r)) ∧
        ∀ o ∈ lists.2, Shaped errors (.option o)) (fun lists => lists.1 ≠ [])
    (fun _ _ _ _ hr => BodyLoop.extensions.view_ne_nil hr) ?_ ?_ (by simp))
    fun s _ _ hs => .ask (.pure ⟨hs.2, by simpa [Node.parts] using hs.1⟩)
  · intro lists c hlists
    have hmore : ∀ range, Shaped errors (.ofExtensionRange range) →
        ((∀ r ∈ lists.1 ++ [range], Shaped errors (.ofExtensionRange r)) ∧
          ∀ o ∈ lists.2, Shaped errors (.option o)) ∧ lists.1 ++ [range] ≠ [] :=
      fun range hrange => ⟨⟨List.forall_mem_append.2
        ⟨hlists.1, List.forall_mem_singleton.2 hrange⟩, hlists.2⟩, by simp⟩
    refine .bind forms_numberOrRange fun n _ _ hn => ?_
    cases n with
    | number n => exact .pure (hmore _ (shaped_number n))
    | range r => exact .pure (hmore _ hn)
  · intro read hread lists c hlists hfilled
    obtain rfl := Option.some.inj hread
    refine .bind forms_optionList fun os _ _ hos => .pure ⟨⟨hlists.1, ?_⟩, hfilled⟩
    exact List.forall_mem_append.2 ⟨hlists.2, hos⟩

/-! ## Fields -/

theorem forms_fieldType : Forms errors c fieldType fun t => Shaped errors (.fieldType t) := by
  refine .recursive fieldTypeWith_local _ fun inner hinner c => ?_
  refine .ask (.ask (.ite (fun hmap => ?_) fun _ => ?_))
  · have hk : c.current.kind = .keyword .map := by
      simp only [Cursor.startsMap, Bool.and_eq_true, beq_iff_eq] at hmap
      exact hmap.1
    refine .take fun hc => .next fun _ c₁ => .bind (hinner c₁) fun key _ _ hkey => ?_
    refine .next fun _ c₂ => .bind (hinner c₂) fun value _ _ hvalue => .next fun _ _ => ?_
    -- The keyword may be written in capitals, but its name is kept in small letters.
    have hword : (wordOf c.current).text = "map" := hc.wordOf hk
    have hname : (wordOf c.current).isQualified = true := by
      rw [Name.isQualified, hword]
      decide
    exact .ask (.pure ⟨⟨hname, .inr ⟨hword, rfl⟩⟩, by simp [Node.parts, hkey, hvalue]⟩)
  · refine .bind forms_typeName fun name _ _ hname => .pure ⟨⟨hname, .inl rfl⟩, ?_⟩
    simp [Node.parts]

theorem forms_integer {subject : String} {fault : String → Span → SyntaxError} :
    Forms errors c (integer subject fault) fun n => n.integer?.isSome := by
  refine .next fun t _ => .ite (fun hn => .pure hn) fun _ => ?_
  exact fun _ _ _ hy => absurd hy not_yields_reject

theorem forms_field : Forms errors c field fun f => Shaped errors (.field f) := by
  refine .ask (.next fun label _ => .bind forms_fieldType fun type _ _ htype => ?_)
  refine .bind forms_name fun name _ _ hname => .next fun _ _ => ?_
  refine .bind forms_integer fun number _ _ hnumber => ?_
  refine .bind forms_options fun options _ _ hoptions => .next fun _ _ => ?_
  exact .ask (.pure ⟨⟨hname, hnumber⟩, by simpa [Node.parts, htype] using hoptions⟩)

/-! ## Enums -/

theorem forms_enumValue : Forms errors c enumValue fun v => Shaped errors (.enumValue v) := by
  refine .ask (.bind forms_name fun name _ _ hname => .next fun _ _ => ?_)
  refine .bind forms_integer fun number _ _ hnumber => ?_
  refine .bind forms_options fun options _ _ hoptions => .next fun _ _ => ?_
  exact .ask (.pure ⟨⟨hname, hnumber⟩, by simpa [Node.parts] using hoptions⟩)

theorem forms_enumStatement {decl : EnumDecl} (h : Shaped errors (.enum decl)) :
    Forms errors c (enumStatement decl) fun decl => Shaped errors (.enum decl) := by
  refine .ask (.ite (fun _ => ?_) fun _ => .ask (.ite (fun _ => ?_) fun _ => ?_))
  · exact h.added .enum forms_optionStatement (fun _ => h.formed) (by simp [Node.parts])
  · refine .bind forms_reserved fun r _ _ hr => .pure ?_
    exact h.grow (List.forall_mem_singleton.2 hr) h.formed (by simp [Node.parts])
  · exact h.added .enum forms_enumValue (fun _ => h.formed) (by simp [Node.parts])

theorem forms_enumDecl : Forms errors c enumDecl fun e => Shaped errors (.enum e) := by
  refine .next fun _ _ => .bind forms_name fun name _ _ hname => ?_
  refine .bind (.body (fun decl _ h => forms_enumStatement h) ⟨hname, by simp [Node.parts]⟩)
    fun decl _ _ h => ?_
  exact .ask (.pure ⟨h.formed, fun _ => h.child⟩)

/-! ## Messages -/

theorem forms_oneofStatement {decl : Oneof} (h : Shaped errors (.oneof decl)) :
    Forms errors c (oneofStatement decl) fun decl => Shaped errors (.oneof decl) := by
  refine .ask (.ite (fun _ => ?_) fun _ => ?_)
  · exact h.added .oneof forms_optionStatement (fun _ => h.formed) (by simp [Node.parts])
  · exact h.added .oneof forms_field (fun _ => h.formed) (by simp [Node.parts])

theorem forms_oneof : Forms errors c oneof fun o => Shaped errors (.oneof o) := by
  refine .next fun _ _ => .bind forms_name fun name _ _ hname => ?_
  refine .bind (.body (fun decl _ h => forms_oneofStatement h) ⟨hname, by simp [Node.parts]⟩)
    fun decl _ _ h => ?_
  exact .ask (.pure ⟨h.formed, fun _ => h.child⟩)

theorem forms_extendStatement {decl : Extend} (h : Shaped errors (.extend decl)) :
    Forms errors c (extendStatement decl) fun decl => Shaped errors (.extend decl) :=
  h.added .extend forms_field (fun _ => h.formed) (by simp [Node.parts])

theorem forms_extend : Forms errors c extend fun e => Shaped errors (.extend e) := by
  refine .next fun _ _ => .bind forms_typeName fun extendee _ _ hextendee => ?_
  refine .bind (.body (fun decl _ h => forms_extendStatement h)
    ⟨hextendee, by simp [Node.parts]⟩) fun decl _ _ h => ?_
  exact .ask (.pure ⟨h.formed, fun _ => h.child⟩)

/-- Extension lists of one message are gathered into one. -/
theorem shaped_mergeExtensions {before : Option Extensions} {list : Extensions}
    (hbefore : ∀ e ∈ before, Shaped errors (.extensions e))
    (hlist : Shaped errors (.extensions list)) :
    Shaped errors (.extensions (mergeExtensions before list)) := by
  cases before with
  | none => exact hlist
  | some e =>
    have he : Shaped errors (.extensions e) := hbefore e rfl
    have hformed : errors = [] → e.ranges ++ list.ranges ≠ [] :=
      fun hnil => List.append_ne_nil_of_left_ne_nil (he.formed hnil) list.ranges
    obtain ⟨-, hparts⟩ := he
    obtain ⟨-, hparts'⟩ := hlist
    simp only [Node.parts, List.forall_mem_cons] at hparts hparts'
    refine ⟨hformed, ?_⟩
    simp only [Node.parts, mergeExtensions, List.map_append, List.forall_mem_cons,
      List.forall_mem_append]
    exact ⟨⟨hparts.1, hparts'.1⟩, ⟨hparts.2.1, hparts'.2.1⟩, by simp⟩

theorem forms_messageStatement {inner : Parser Message}
    (hinner : Forms errors c inner fun m => Shaped errors (.message m)) {decl : Message}
    (h : Shaped errors (.message decl)) :
    Forms errors c (messageStatement inner decl) fun decl => Shaped errors (.message decl) := by
  refine .ask ?_
  split
  · exact h.added .message hinner (fun _ => h.formed) (by simp [Node.parts])
  · exact h.added .message forms_enumDecl (fun _ => h.formed) (by simp [Node.parts])
  · exact h.added .message forms_oneof (fun _ => h.formed) (by simp [Node.parts])
  · exact h.added .message forms_extend (fun _ => h.formed) (by simp [Node.parts])
  · exact h.added .message forms_optionStatement (fun _ => h.formed) (by simp [Node.parts])
  · refine .bind forms_extensionList fun list _ _ hlist => .pure ?_
    have hbefore : ∀ e ∈ decl.extensions, Shaped errors (.extensions e) := by
      intro e he
      have hpart : (decl.extensions.map Node.extensions).toList ∈ (Node.message decl).parts := by
        simp [Node.parts]
      exact h.child hpart _ (by simp [Option.mem_def.1 he])
    have hmerged := List.forall_mem_singleton.2 (shaped_mergeExtensions hbefore hlist)
    exact h.replace hmerged h.formed (by simp [Node.parts])
  · refine .bind forms_reserved fun r _ _ hr => .pure ?_
    exact h.grow (List.forall_mem_singleton.2 hr) h.formed (by simp [Node.parts])
  · exact h.added .message forms_field (fun _ => h.formed) (by simp [Node.parts])

theorem forms_message : Forms errors c message fun m => Shaped errors (.message m) := by
  refine .recursive messageWith_local _ fun inner hinner c => ?_
  refine .next fun _ _ => .bind forms_name fun name _ _ hname => ?_
  refine .bind (.body (fun decl c h => forms_messageStatement (hinner c) h)
    ⟨hname, by simp [Node.parts, emptyMessage]⟩) fun decl _ _ h => ?_
  exact .ask (.pure ⟨h.formed, fun _ => h.child⟩)

/-! ## Services -/

theorem forms_methodType {what : String} :
    Forms errors c (methodType what) fun type => type.2.isQualified := by
  refine .next fun _ _ => .ask (.ite (fun _ => .next fun _ _ => ?_) fun _ => ?_)
  · exact .bind forms_typeName fun _ _ _ htype => .next fun _ _ => .pure htype
  · exact .bind forms_typeName fun _ _ _ htype => .next fun _ _ => .pure htype

theorem forms_methodStatement {os : List OptionDecl} (h : ∀ o ∈ os, Shaped errors (.option o)) :
    Forms errors c (methodStatement os) fun os => ∀ o ∈ os, Shaped errors (.option o) := by
  refine .ask (.ite (fun _ => ?_) fun _ => .next fun _ _ => .next fun _ _ => .pure h)
  refine .bind forms_optionStatement.attempt fun o? _ _ ho => .pure ?_
  exact List.forall_mem_append.2 ⟨h, fun o hmem => ho o (Option.mem_toList.1 hmem)⟩

theorem forms_methodEnd {name : String} :
    Forms errors c (methodEnd name) fun os => ∀ o ∈ os, Shaped errors (.option o) := by
  refine .next fun o c₁ => ?_
  cases o with
  | some t => exact .block (fun os _ h => forms_methodStatement h) (by simp)
  | none => exact .next fun _ _ => .pure (by simp)

theorem forms_method : Forms errors c method fun m => Shaped errors (.method m) := by
  refine .next fun _ _ => .bind forms_name fun name _ _ hname => ?_
  refine .bind forms_methodType fun request _ _ hrequest => .next fun _ _ => ?_
  refine .bind forms_methodType fun response _ _ hresponse => ?_
  refine .bind forms_methodEnd fun options _ _ hoptions => .ask (.pure ?_)
  exact ⟨⟨hname, hrequest, hresponse⟩, by simpa [Node.parts] using hoptions⟩

theorem forms_serviceStatement {decl : Service} (h : Shaped errors (.service decl)) :
    Forms errors c (serviceStatement decl) fun decl => Shaped errors (.service decl) := by
  refine .ask ?_
  split
  · exact h.added .service forms_optionStatement (fun _ => h.formed) (by simp [Node.parts])
  · exact h.added .service forms_method (fun _ => h.formed) (by simp [Node.parts])
  · exact .next fun _ _ => .next fun _ _ => .pure h

theorem forms_service : Forms errors c service fun s => Shaped errors (.service s) := by
  refine .next fun _ _ => .bind forms_name fun name _ _ hname => ?_
  refine .bind (.body (fun decl _ h => forms_serviceStatement h) ⟨hname, by simp [Node.parts]⟩)
    fun decl _ _ h => ?_
  exact .ask (.pure ⟨h.formed, fun _ => h.child⟩)

/-! ## Files -/

theorem forms_edition : Forms errors c edition fun e => Shaped errors (.edition e) := by
  refine .next fun _ _ => .next fun _ _ => .next fun _ _ => .next fun _ _ => ?_
  exact .ask (.pure ⟨trivial, by simp [Node.parts]⟩)

theorem forms_package : Forms errors c package fun p => Shaped errors (.package p) := by
  refine .next fun _ _ => .bind forms_dottedName fun name _ _ hname => .next fun _ _ => ?_
  exact .ask (.pure ⟨hname, by simp [Node.parts]⟩)

theorem forms_importStatement :
    Forms errors c importStatement fun i => Shaped errors (.importDecl i) := by
  refine .next fun _ _ => .next fun _ _ => .next fun _ _ => .next fun _ _ => ?_
  exact .ask (.pure ⟨trivial, by simp [Node.parts]⟩)

theorem forms_editionStatement {isFirst : Bool} {file : File} (h : Shaped errors (.file file)) :
    Forms errors c (editionStatement isFirst file) fun file => Shaped errors (.file file) := by
  refine .bind forms_edition.attempt fun o _ _ ho => .ite (fun _ => .pure ?_) fun _ => ?_
  · have hedition : ∀ child ∈ (o.map Node.edition).toList, Shaped errors child := by
      simpa using ho
    exact h.replace hedition trivial (by simp [Node.parts])
  · cases o with
    | some late => exact .next fun _ _ => .pure h
    | none => exact .pure h

theorem forms_packageStatement {file : File} (h : Shaped errors (.file file)) :
    Forms errors c (packageStatement file) fun file => Shaped errors (.file file) := by
  refine .bind forms_package.attempt fun o _ _ ho => ?_
  cases o with
  | none => exact .pure h
  | some package =>
    refine .ite (fun _ => .next fun _ _ => .pure h) fun _ => .pure ?_
    have hpackage := List.forall_mem_singleton.2 (ho package rfl)
    exact h.replace hpackage trivial (by simp [Node.parts])

theorem forms_fileStatement {isFirst : Bool} {file : File} (h : Shaped errors (.file file)) :
    Forms errors c (fileStatement isFirst file) fun file => Shaped errors (.file file) := by
  refine .ask ?_
  split
  · exact forms_editionStatement h
  · exact forms_packageStatement h
  · exact h.added .file forms_importStatement (fun _ => trivial) (by simp [Node.parts])
  · exact h.added .file forms_optionStatement (fun _ => trivial) (by simp [Node.parts])
  · exact h.added .file forms_enumDecl (fun _ => trivial) (by simp [Node.parts])
  · exact h.added .file forms_message (fun _ => trivial) (by simp [Node.parts])
  · exact h.added .file forms_service (fun _ => trivial) (by simp [Node.parts])
  · exact h.added .file forms_extend (fun _ => trivial) (by simp [Node.parts])
  · exact .next fun _ _ => .pure h
  · exact .next fun _ _ => .next fun _ _ => .pure h

theorem forms_fileStatements {isFirst : Bool} {file : File} (h : Shaped errors (.file file)) :
    Forms errors c (fileStatements (isFirst, file)) fun s => Shaped errors (.file s.2) := by
  refine .loop (I := fun s : Bool × File => Shaped errors (.file s.2)) (fun s c h => ?_) h
  obtain ⟨isFirst, file⟩ := s
  refine .ask (.ite (fun _ => .pure h) fun _ => ?_)
  exact .bind (forms_fileStatement h) fun _ _ _ h => .pure h

end Parser

/-- Whatever the source, every node met on a walk through its file is formed. -/
theorem walk_parse_formed (source : String) :
    ∀ v ∈ (Node.file (parse (tokenize source).tokens).file).walk,
      v.node.Formed (parse (tokenize source).tokens).errors := by
  obtain ⟨s, d, hrun⟩ :=
    Parser.total_fileStatements (true, {}) (Cursor.ofTokens (tokenize source).tokens)
  -- The reading ends at `d`, so the errors there are all that was reported.
  have hworded : (Cursor.ofTokens (tokenize source).tokens).Worded :=
    Cursor.worded_ofTokens fun t ht => worded_of_mem_tokenize ht
  have hempty : Shaped d.errors (.file {}) := ⟨trivial, by simp [Node.parts]⟩
  have hfile : Shaped d.errors (.file s.2) :=
    Parser.forms_fileStatements hempty hworded s d hrun (List.Subset.refl _)
  have hparsed : parse (tokenize source).tokens =
      ⟨{ s.2 with span := ⟨1, 1, 0, d.current.span.stop⟩ }, d.errors⟩ := by
    unfold parse
    rw [hrun]
    rfl
  rw [hparsed]
  have hspanned : Shaped d.errors
      (.file { s.2 with span := ⟨1, 1, 0, d.current.span.stop⟩ }) :=
    ⟨trivial, fun _ => hfile.child⟩
  exact hspanned.mem_walkFrom

theorem walk_parse_formed_faulty :
    let parsed := parse (tokenize "message M \x7b MAP<a, b.> f = 1; option o = \x7d").tokens
    parsed.errors.length = 3 ∧ ∃ v ∈ (Node.file parsed.file).walk,
      v.node.kind = .fieldType ∧ v.node.children.length = 3 ∧ v.node.Formed parsed.errors := by
  intro parsed
  have hmap : (Node.file parsed.file).walk.any (fun v =>
      v.node.kind = .fieldType ∧ v.node.children.length = 3) = true := by decide +kernel
  obtain ⟨v, hv, hnode⟩ := List.any_eq_true.1 hmap
  obtain ⟨hkind, hchildren⟩ := of_decide_eq_true hnode
  exact ⟨by decide +kernel, v, hv, hkind, hchildren, walk_parse_formed _ v hv⟩

end ProtoDecl.Schema
