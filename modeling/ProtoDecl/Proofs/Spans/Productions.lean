import ProtoDecl.Proofs.Spans.Lays
import ProtoDecl.Schema.Grammar.File

/-!
# The nodes of every production lie where they should

Each production lays its node, and each kind of statement adds to the parts of its declaration what
it has read.  The proofs follow the productions step by step.
-/

namespace ProtoDecl.Schema.Parser

open Cursor (Ordered)

variable {c c₀ d : Cursor}

/-! ## Names and options -/

theorem lays_name (subject : String) : Lays (name subject) fun n => [.name n] := by
  intro c hc n d hy
  obtain ⟨hk, rfl, rfl⟩ := yields_name.1 hy
  exact laid_current hc (ne_endOfFile_of_isName hk) rfl rfl

theorem lays_dottedName (subject : String) : Lays (dottedName subject) fun n => [.name n] := by
  intro c hc
  refine .ask ((Laying.start hc).next (lays_name subject) fun first c₁ h => ?_)
  refine h.pass fun text c₂ h => ?_
  exact h.spanned .name (by simp) (by simp [Node.parts]) fun _ => rfl

theorem lays_typeName (subject : String) : Lays (typeName subject) fun n => [.name n] := by
  intro c hc
  refine .ask ((Laying.start hc).pass fun dot c₁ h => ?_)
  refine h.next (lays_name subject) fun first c₂ h => h.pass fun text c₃ h => ?_
  exact h.spanned .name (by simp) (by simp [Node.parts]) fun _ => rfl

theorem lays_optionName : Lays optionName fun n => [.name n] := by
  intro c hc
  refine .accept (fun hk => ?_) (lays_dottedName _ c hc)
  refine ((Laying.start hc).onward c.leads_advance).next (lays_typeName _) fun n c₁ h => ?_
  refine h.pass fun _ c₂ h => h.pass fun text c₃ h => ?_
  exact h.spanned .name (by simp) (by simp [Node.parts]) fun _ => rfl

theorem lays_optionValue : Lays optionValue fun o => (o.map Node.ofConstant).toList := by
  intro c hc
  refine .ask ?_
  split
  case h_5 =>
    refine (Laying.start hc).pass fun _ c₁ h => ?_
    exact .ite (fun _ => h.pass fun _ _ _ => .pure .nil) fun _ => .pure .nil
  all_goals
    rename_i hk
    exact .take (.pure (laid_current hc (by simp [hk]) rfl rfl))

theorem lays_assignment : Lays assignment fun o => [.option o] := by
  intro c hc
  refine .ask ((Laying.start hc).next lays_optionName fun n c₁ h => ?_)
  refine h.pass fun _ c₂ h => h.next lays_optionValue fun value c₃ h => ?_
  exact h.spanned .option (by simp) (by simp [Node.parts]) fun _ => rfl

theorem lays_optionStatement : Lays optionStatement fun o => [.option o] := by
  intro c hc
  refine (Laying.start hc).pass fun _ c₁ h => h.next lays_assignment fun o c₂ h => ?_
  exact h.pass fun _ c₃ h => .pure h.only

/-- What is read between the brackets of a list of options is added to it. -/
theorem extends_optionEntry {options : List OptionDecl} (h : Laying c₀ [options.map .option] c) :
    Ensures c (optionEntry options) fun r d => Laying c₀ [r.state.map .option] d := by
  refine .ask ?_
  split
  case h_5 =>
    refine h.add lays_assignment.attempt.moving
      (fun result c₁ (h : Laying c₀ [(options ++ result.1.toList).map .option] c₁) => ?_) (by simp)
    exact .ite (fun _ => h.pass fun _ c₂ h => .pure h) fun _ => .pure h
  all_goals exact h.pass fun _ c₁ h => .pure h

theorem lays_optionList : Lays optionList fun options => options.map .option := by
  intro c hc
  refine (Laying.start hc).pass fun _ c₁ h => ?_
  intro options d hy
  exact (Laying.loop (fun options : List OptionDecl => [options.map .option]) extends_optionEntry
    (h.weaken (by simp)) options d hy).only

theorem lays_options : Lays options fun options => options.map .option := by
  intro c hc
  exact .ask (.ite (fun _ => lays_optionList c hc) fun _ => .pure .nil)

/-! ## Lists of numbers -/

/-- The node of a number or a range. -/
def NumberOrRange.node : NumberOrRange → Node
  | .number n => .number n
  | .range r => .range r

theorem lays_numberOrRange (hc : Ordered c) (hk : c.current.kind = .number) :
    Ensures c numberOrRange fun n d => Laid c.front d.lastEnd [n.node] := by
  have hfirst : Laying c [[.number (numberOf c.current)]] c.advance :=
    (Laying.start hc).concat c.leads_advance (laid_current hc (by simp [hk]) rfl rfl)
  refine .take (hfirst.pass fun o c₁ h => ?_)
  cases o with
  | none => exact .pure h.only
  | some t =>
    refine .ask ?_
    split
    · rename_i hk'
      have hlast : Laid c₁.front c₁.advance.lastEnd [.number (numberOf c₁.current)] :=
        laid_current h.later.ordered (by simp [hk']) rfl rfl
      refine .take ((h.concat c₁.leads_advance hlast).spanned NumberOrRange.node (by simp) ?_ ?_)
      · simp [NumberOrRange.node, Node.parts, Node.ofRangeEnd]
      · exact fun _ => rfl
    · rename_i hk'
      have hlast : Laid c₁.front c₁.advance.lastEnd [.name (wordOf c₁.current)] :=
        laid_current h.later.ordered (by simp [hk']) rfl rfl
      refine .take ((h.concat c₁.leads_advance hlast).spanned NumberOrRange.node (by simp) ?_ ?_)
      · simp [NumberOrRange.node, Node.parts, Node.ofRangeEnd]
      · exact fun _ => rfl
    · exact h.pass fun _ c₂ h => .pure h.only

section
variable {σ : Type} {parts : σ → List (List Node)}

theorem extends_listEntry {form : ListForm σ}
    (hitem : ∀ {c₀ c s}, c.current.kind ∈ form.starts → Laying c₀ (parts s) c →
      Ensures c (form.item s) fun s' d => Laying c₀ (parts s') d)
    (hoptions : ∀ options ∈ form.options?, Extends options parts) {s : Bool × σ}
    (h : Laying c₀ (parts s.2) c) :
    Ensures c (listEntry form s) fun r d => Laying c₀ (parts r.state.2) d := by
  obtain ⟨wanted, s⟩ := s
  refine .ask (.ite (fun _ => ?_) fun _ => .ite (fun _ => ?_) fun _ => .ite (fun _ => ?_) fun _ =>
    .ite (fun _ => ?_) fun _ => ?_)
  · refine .ite (fun _ => ?_) fun _ => h.pass fun _ c₁ h => .pure h
    exact h.pass fun _ c₁ h => h.pass fun _ c₂ h => .pure h
  · exact h.pass fun _ c₁ h => .pure h
  · refine .ite (fun hk => .bind (hitem hk h) fun s' c₁ _ h => .pure h) fun _ => ?_
    exact h.pass fun _ c₁ h => h.pass fun _ c₂ h => .pure h
  · exact h.pass fun _ c₁ h => .pure h
  · split
    · rename_i options _ hsome
      exact .bind (hoptions options hsome h) fun s' c₁ _ h => .pure h
    · exact h.pass fun _ c₁ h => h.pass fun _ c₂ h => .pure h

theorem Laying.listItems (form : ListForm σ) (parts : σ → List (List Node))
    (hitem : ∀ {c₀ c s}, c.current.kind ∈ form.starts → Laying c₀ (parts s) c →
      Ensures c (form.item s) fun s' d => Laying c₀ (parts s') d)
    (hoptions : ∀ options ∈ form.options?, Extends options parts) {s : Bool × σ}
    (h : Laying c₀ (parts s.2) c) :
    Ensures c (Parser.listItems form s) fun s' d => Laying c₀ (parts s'.2) d :=
  Laying.loop (fun s : Bool × σ => parts s.2) (extends_listEntry hitem hoptions) h

end

theorem extends_reservedItem {items : List ReservedItem}
    (hk : c.current.kind ∈ reservedForm.starts)
    (h : Laying c₀ [items.map .ofReservedItem] c) :
    Ensures c (reservedItem items) fun items d => Laying c₀ [items.map .ofReservedItem] d := by
  refine .ask (.ite (fun hk => ?_) fun hk' => ?_)
  · have hname : Laid c.front c.advance.lastEnd [.text (textOf c.current)] :=
      laid_current h.later.ordered (by simp [hk]) rfl rfl
    exact .take (.pure (h.grow c.leads_advance hname (by simp [Node.ofReservedItem])))
  · have hnumber : c.current.kind = .number := by simpa [reservedForm, hk'] using hk
    refine .bind (lays_numberOrRange h.later.ordered hnumber) fun n c₁ hy hn => ?_
    cases n <;> exact .pure (h.grow hy.leads hn (by simp [Node.ofReservedItem, NumberOrRange.node]))

theorem lays_reserved (hc : Ordered c) (hk : c.current.kind ≠ .endOfFile) :
    Ensures c reserved fun r d => Laid c.front d.lastEnd [.reserved r] := by
  refine (Laying.start hc).take fun h => ?_
  refine .bind (Laying.listItems reservedForm (fun items => [items.map .ofReservedItem])
    extends_reservedItem nofun (h.weaken (by simp))) fun s c₁ hy h => ?_
  exact h.closed .reserved (front_lt_lastEnd hc hk hy.leads) (by simp [Node.parts]) fun _ => rfl

/-- The two lists of an extension list, as parts. -/
def extensionParts (lists : List ExtensionRange × List OptionDecl) : List (List Node) :=
  [lists.1.map .ofExtensionRange, lists.2.map .option]

theorem extends_extensionItem {lists : List ExtensionRange × List OptionDecl}
    (hk : c.current.kind ∈ extensionForm.starts) (h : Laying c₀ (extensionParts lists) c) :
    Ensures c (extensionItem lists) fun lists d => Laying c₀ (extensionParts lists) d := by
  have hnumber : c.current.kind = .number := by simpa [extensionForm] using hk
  refine .bind (lays_numberOrRange h.later.ordered hnumber) fun n c₁ hy hn => ?_
  cases n <;> exact .pure (h.grow hy.leads hn
    (by simp [extensionParts, Node.ofExtensionRange, NumberOrRange.node]))

theorem extends_extensionOptions : Extends extensionOptions extensionParts :=
  fun h => h.added extensionParts lays_optionList (by simp [extensionParts])

theorem lays_extensionList (hc : Ordered c) (hk : c.current.kind ≠ .endOfFile) :
    Ensures c extensionList fun e d => Laid c.front d.lastEnd [.extensions e] := by
  refine (Laying.start hc).take fun h => ?_
  refine .bind (Laying.listItems extensionForm extensionParts extends_extensionItem
    (by rintro _ ⟨⟩; exact extends_extensionOptions) (h.weaken (by simp [extensionParts])))
    fun s c₁ hy h => ?_
  exact h.closed .extensions (front_lt_lastEnd hc hk hy.leads)
    (by simp [Node.parts, extensionParts]) fun _ => rfl

/-- An extension list added to those before it reaches from the first of them to the last. -/
theorem laid_mergeExtensions {lo hi lo' hi' : Nat} {before : Option Extensions}
    {list : Extensions} (hbefore : Laid lo hi (before.map Node.extensions).toList)
    (hlist : Laid lo' hi' [.extensions list]) (hbehind : hi ≤ lo')
    (hlo : lo ≤ lo') : Laid lo hi' [.extensions (mergeExtensions before list)] := by
  cases before with
  | none => exact hlist.mono hlo (Nat.le_refl _)
  | some e =>
    obtain ⟨hstart, hlt, hstop⟩ := hbefore.tiled.within (.extensions e) (by simp)
    obtain ⟨hstart', hlt', hstop'⟩ := hlist.tiled.within (.extensions list) (by simp)
    simp only [Node.span] at hstart hlt hstop hstart' hlt' hstop'
    have hend : (e.span.through list.span).stop = list.span.stop :=
      Nat.max_eq_left (by omega)
    have hplaced := hbefore.placed (.extensions e) (by simp)
    have hplaced' := hlist.placed (.extensions list) (by simp)
    have hpart : ∀ {a b : List Node}, a ∈ (Node.extensions e).parts →
        b ∈ (Node.extensions list).parts → Laid e.span.start list.span.stop (a ++ b) :=
      fun ha hb => (hplaced.laid ha).append (hplaced'.laid hb) (by simp only [Node.span]; omega)
        (by simp only [Node.span]; omega) (by simp only [Node.span]; omega)
    refine .single hstart ?_ ?_ fun part hpart' => ?_
    · change e.span.start < (e.span.through list.span).stop
      omega
    · change (e.span.through list.span).stop ≤ hi'
      omega
    · change Laid e.span.start (e.span.through list.span).stop part
      rw [hend]
      simp only [Node.parts, Parser.mergeExtensions, List.map_append, List.mem_cons,
        List.not_mem_nil, or_false] at hpart'
      rcases hpart' with rfl | rfl
      · exact hpart (by simp [Node.parts]) (by simp [Node.parts])
      · exact hpart (by simp [Node.parts]) (by simp [Node.parts])

/-! ## Fields -/

theorem lays_fieldTypeWith (inner : Parser FieldType) (h : Lays inner fun t => [.fieldType t]) :
    Lays (fieldTypeWith inner) fun t => [.fieldType t] := by
  intro c hc
  refine .ask (.ask (.ite (fun hmap => ?_) fun _ => ?_))
  · have hk : c.current.kind ≠ .endOfFile := by
      intro hk
      simp [Cursor.startsMap, hk] at hmap
    have hword : Laying c [[.name (wordOf c.current)]] c.advance :=
      (Laying.start hc).concat c.leads_advance (laid_current hc hk rfl rfl)
    refine .take (hword.pass fun _ c₁ h₁ => h₁.next h fun key c₂ h₂ => h₂.pass fun _ c₃ h₃ => ?_)
    refine h₃.add h (fun value c₄ (h₄ : Laying c [[.name (wordOf c.current)],
      [.fieldType key, .fieldType value]] c₄) => h₄.pass fun _ c₅ h₅ => ?_) (by simp)
    exact h₅.spanned .fieldType (by simp) (by simp [Node.parts]) fun _ => rfl
  · refine (Laying.start hc).next (lays_typeName _) fun n c₁ h₁ => .pure ?_
    have hname : Laid c.front c₁.lastEnd [.name n] := h₁.only
    obtain ⟨hstart, hlt, hstop⟩ := hname.tiled.within (.name n) (by simp)
    refine .single hstart hlt hstop fun part hpart => ?_
    simp only [Node.parts, List.map_nil, List.mem_cons, List.not_mem_nil, or_false] at hpart
    rcases hpart with rfl | rfl
    · exact .single (Nat.le_refl _) hlt (Nat.le_refl _) (by simp [Node.parts])
    · exact .nil

theorem lays_fieldType : Lays fieldType fun t => [.fieldType t] :=
  .recursive fieldTypeWith_local _ lays_fieldTypeWith

theorem lays_fieldLabel : Lays fieldLabel fun l => (l.map Node.fieldLabel).toList := by
  intro c hc
  refine .ask ?_
  split
  · rename_i label hlabel
    refine .take (.pure (laid_current hc ?_ rfl rfl))
    rintro hk
    simp [hk, labelOf?] at hlabel
  · exact .pure .nil

theorem lays_integer (subject : String) (fault : String → Span → SyntaxError) :
    Lays (integer subject fault) fun n => [.number n] := by
  intro c hc
  refine .expectAs fun hk => .ite (fun _ => ?_) fun _ => ?_
  · exact .pure (laid_current hc (by simp [hk]) rfl rfl)
  · exact fun n d hy => absurd hy not_yields_reject

theorem lays_field : Lays field fun f => [.field f] := by
  intro c hc
  refine .ask ((Laying.start hc).next lays_fieldLabel fun label c₁ h => ?_)
  refine h.next lays_fieldType fun type c₂ h => h.next (lays_name _) fun n c₃ h => ?_
  refine h.pass fun _ c₄ h => h.next (lays_integer _ _) fun number c₅ h => ?_
  refine h.next lays_options fun options c₆ h => h.pass fun _ c₇ h => ?_
  exact h.spanned .field (by simp) (by simp [Node.parts]) fun _ => rfl

/-! ## Enums -/

theorem lays_enumValue : Lays enumValue fun v => [.enumValue v] := by
  intro c hc
  refine .ask ((Laying.start hc).next (lays_name _) fun n c₁ h => h.pass fun _ c₂ h => ?_)
  refine h.next (lays_integer _ _) fun number c₃ h => ?_
  refine h.next lays_options fun options c₄ h => h.pass fun _ c₅ h => ?_
  exact h.spanned .enumValue (by simp) (by simp [Node.parts]) fun _ => rfl

theorem extends_enumStatement : Extends enumStatement (Node.parts ∘ .enum) := by
  intro c₀ c decl h
  refine .ask (.ite (fun _ => ?_) fun _ => .ask (.ite (fun hstarts => ?_) fun _ => ?_))
  · exact h.added (Node.parts ∘ .enum) lays_optionStatement.attempt (by simp [Node.parts])
  · have hk : c.current.kind ≠ .endOfFile := by
      intro hk
      simp [Cursor.startsReserved, hk] at hstarts
    refine .bind (lays_reserved h.later.ordered hk) fun r c₁ hy hr => .pure ?_
    exact h.grow hy.leads hr (by simp [Node.parts])
  · exact h.added (Node.parts ∘ .enum) lays_enumValue.attempt (by simp [Node.parts])

theorem lays_enumDecl : Lays enumDecl fun e => [.enum e] := by
  intro c hc
  refine (Laying.start hc).take fun h => h.next (lays_name _) fun n c₁ h => ?_
  refine .bind (Laying.body (Node.parts ∘ .enum) extends_enumStatement
    (h.weaken (by simp [Node.parts]))) fun decl c₂ _ h => ?_
  exact h.spanned .enum (by simp [Node.parts]) (by simp [Node.parts]) fun _ => rfl

/-! ## Messages -/

theorem extends_oneofStatement : Extends oneofStatement (Node.parts ∘ .oneof) := by
  intro c₀ c decl h
  refine .ask (.ite (fun _ => ?_) fun _ => ?_)
  · exact h.added (Node.parts ∘ .oneof) lays_optionStatement.attempt (by simp [Node.parts])
  · exact h.added (Node.parts ∘ .oneof) lays_field.attempt (by simp [Node.parts])

theorem lays_oneof : Lays oneof fun o => [.oneof o] := by
  intro c hc
  refine (Laying.start hc).take fun h => h.next (lays_name _) fun n c₁ h => ?_
  refine .bind (Laying.body (Node.parts ∘ .oneof) extends_oneofStatement
    (h.weaken (by simp [Node.parts]))) fun decl c₂ _ h => ?_
  exact h.spanned .oneof (by simp [Node.parts]) (by simp [Node.parts]) fun _ => rfl

theorem extends_extendStatement : Extends extendStatement (Node.parts ∘ .extend) :=
  fun h => h.added (Node.parts ∘ .extend) lays_field.attempt (by simp [Node.parts])

theorem lays_extend : Lays extend fun e => [.extend e] := by
  intro c hc
  refine (Laying.start hc).take fun h => h.next (lays_typeName _) fun n c₁ h => ?_
  refine .bind (Laying.body (Node.parts ∘ .extend) extends_extendStatement
    (h.weaken (by simp [Node.parts]))) fun decl c₂ _ h => ?_
  exact h.spanned .extend (by simp [Node.parts]) (by simp [Node.parts]) fun _ => rfl

theorem Laying.merged {decl : Message} {e : Extensions}
    (h : Laying c₀ (Node.message decl).parts c) (hleads : c.Leads d)
    (he : Laid c.front d.lastEnd [.extensions e]) :
    Laying c₀ (Node.message
      { decl with extensions := some (mergeExtensions decl.extensions e) }).parts d := by
  have hgathered : Laid c₀.front d.lastEnd [.extensions (mergeExtensions decl.extensions e)] :=
    laid_mergeExtensions (h.laid _ (by simp [Node.parts])) he h.later.ordered.lastEnd_le_front
      h.later.front_le
  refine ⟨h.ordered, h.leads.trans hleads, fun part hpart => ?_⟩
  have hcases : part ∈ (Node.message decl).parts ∨
      part = [.extensions (mergeExtensions decl.extensions e)] := by
    simp only [Node.parts, List.mem_cons, List.not_mem_nil, or_false] at hpart ⊢
    tauto
  rcases hcases with hpart | rfl
  · exact (h.onward hleads).laid part hpart
  · exact hgathered

theorem extends_messageStatement {inner : Parser Message}
    (hinner : Lays inner fun m => [.message m]) :
    Extends (messageStatement inner) (Node.parts ∘ .message) := by
  intro c₀ c decl h
  have hopens := opens_classify c
  refine .ask ?_
  split <;> rename_i hs
  · exact h.added (Node.parts ∘ .message) hinner.attempt (by simp [Node.parts])
  · exact h.added (Node.parts ∘ .message) lays_enumDecl.attempt (by simp [Node.parts])
  · exact h.added (Node.parts ∘ .message) lays_oneof.attempt (by simp [Node.parts])
  · exact h.added (Node.parts ∘ .message) lays_extend.attempt (by simp [Node.parts])
  · exact h.added (Node.parts ∘ .message) lays_optionStatement.attempt (by simp [Node.parts])
  · rw [hs] at hopens
    have hk : c.current.kind = .keyword .extensions := hopens
    refine .bind (lays_extensionList h.later.ordered (by simp [hk])) fun e c₁ hy he => .pure ?_
    exact Laying.merged h hy.leads he
  · rw [hs] at hopens
    have hk : c.current.kind = .keyword .reserved := hopens
    refine .bind (lays_reserved h.later.ordered (by simp [hk])) fun r c₁ hy hr => .pure ?_
    exact h.grow hy.leads hr (by simp [Node.parts])
  · exact h.added (Node.parts ∘ .message) lays_field.attempt (by simp [Node.parts])

theorem lays_message : Lays message fun m => [.message m] := by
  refine .recursive messageWith_local _ fun inner hinner c hc => ?_
  refine (Laying.start hc).take fun h => h.next (lays_name _) fun n c₁ h => ?_
  refine .bind (Laying.body (Node.parts ∘ .message) (extends_messageStatement hinner)
    (h.weaken (by simp [Node.parts, emptyMessage]))) fun decl c₂ _ h => ?_
  exact h.spanned .message (by simp [Node.parts]) (by simp [Node.parts]) fun _ => rfl

/-! ## Services -/

theorem lays_methodType (what : String) : Lays (methodType what) fun type => [.name type.2] := by
  intro c hc
  refine (Laying.start hc).pass fun _ c₁ h => .ask (.ite (fun _ => ?_) fun _ => ?_)
  · refine h.pass fun _ c₂ h => h.next (lays_typeName _) fun n c₃ h => ?_
    exact h.pass fun _ c₄ h => .pure h.only
  · refine h.next (lays_typeName _) fun n c₂ h => ?_
    exact h.pass fun _ c₃ h => .pure h.only

theorem extends_methodStatement :
    Extends methodStatement fun options => [options.map Node.option] := by
  intro c₀ c options h
  refine .ask (.ite (fun _ => ?_) fun _ => ?_)
  · exact h.added (fun options : List OptionDecl => [options.map .option])
      lays_optionStatement.attempt (by simp)
  · exact h.pass fun _ c₁ h => h.pass fun _ c₂ h => .pure h

theorem lays_methodEnd (n : String) : Lays (methodEnd n) fun options => options.map .option := by
  intro c hc
  refine (Laying.start hc).pass fun o c₁ h => ?_
  cases o with
  | none => exact h.pass fun _ c₂ h => .pure .nil
  | some t =>
    intro options d hy
    exact (Laying.block (fun options : List OptionDecl => [options.map .option])
      extends_methodStatement
      (h.weaken (by simp)) options d hy).only

theorem lays_method : Lays method fun m => [.method m] := by
  intro c hc
  refine (Laying.start hc).take fun h => h.next (lays_name _) fun n c₁ h => ?_
  refine h.next (lays_methodType _) fun request c₂ h => h.pass fun _ c₃ h => ?_
  refine h.next (lays_methodType _) fun response c₄ h => ?_
  refine h.next (lays_methodEnd _) fun options c₅ h => ?_
  exact h.spanned .method (by simp) (by simp [Node.parts]) fun _ => rfl

theorem extends_serviceStatement : Extends serviceStatement (Node.parts ∘ .service) := by
  intro c₀ c decl h
  refine .ask ?_
  split
  · exact h.added (Node.parts ∘ .service) lays_optionStatement.attempt (by simp [Node.parts])
  · exact h.added (Node.parts ∘ .service) lays_method.attempt (by simp [Node.parts])
  · exact h.pass fun _ c₁ h => h.pass fun _ c₂ h => .pure h

theorem lays_service : Lays service fun s => [.service s] := by
  intro c hc
  refine (Laying.start hc).take fun h => h.next (lays_name _) fun n c₁ h => ?_
  refine .bind (Laying.body (Node.parts ∘ .service) extends_serviceStatement
    (h.weaken (by simp [Node.parts]))) fun decl c₂ _ h => ?_
  exact h.spanned .service (by simp [Node.parts]) (by simp [Node.parts]) fun _ => rfl

/-! ## Files -/

theorem lays_text {wanted : Wanted} : Lays (expectAs .text wanted) fun t => [.text (textOf t)] := by
  intro c hc t d hy
  obtain ⟨hk, rfl, rfl⟩ := yields_expectAs.1 hy
  exact laid_current hc (by simp [hk]) rfl rfl

theorem lays_edition : Lays edition fun e => [.edition e] := by
  intro c hc
  refine (Laying.start hc).take fun h => h.pass fun _ c₁ h => h.next lays_text fun t c₂ h => ?_
  refine h.pass fun _ c₃ h => ?_
  exact h.spanned .edition (by simp) (by simp [Node.parts]) fun _ => rfl

theorem lays_package : Lays package fun p => [.package p] := by
  intro c hc
  refine (Laying.start hc).take fun h => h.next (lays_dottedName _) fun n c₁ h => ?_
  refine h.pass fun _ c₂ h => ?_
  exact h.spanned .package (by simp) (by simp [Node.parts]) fun _ => rfl

theorem lays_importStatement : Lays importStatement fun i => [.importDecl i] := by
  intro c hc
  refine (Laying.start hc).take fun h => h.pass fun _ c₁ h => h.next lays_text fun t c₂ h => ?_
  refine h.pass fun _ c₃ h => ?_
  exact h.spanned .importDecl (by simp) (by simp [Node.parts]) fun _ => rfl

end ProtoDecl.Schema.Parser
