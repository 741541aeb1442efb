import ProtoDecl.Proofs.Layout.Agree
import ProtoDecl.Proofs.Reading.Recursion

/-!
# Reading depends only on what is seen

Every parser of the grammar agrees with itself under every sight.  So what is seen of a file, and of
the errors in it, depends only on what is seen of the significant tokens and the end of the file
(`seen_parse`).

* Looking ahead comes first, as it could see further: `classify`, `startsMap`, `startsReserved` and
  `startsStream` answer alike for similar cursors, because they look behind the next token only if
  that is a keyword, and behind a name only if there is one.
* Then the parsers, in the order of the grammar.
* With sharp eyes: `parse_eq_parse_significant`, that comments and whatever follows the end of the
  file are invisible.
-/

namespace ProtoDecl.Schema

variable {S : Sight} {c d : Cursor}

/-! ## Looking ahead -/

namespace Similar

theorem eof_kind_eq (c d : Cursor) : c.eof.kind = d.eof.kind := by
  rw [Cursor.eof_kind, Cursor.eof_kind]

theorem peek (h : Similar S c d) {n : Nat} (hn : n ≤ c.view.length) :
    (c.peek n).kind = (d.peek n).kind := by
  have hlength : c.view.length = d.view.length := by
    simpa using congrArg List.length h.view
  have hdrop : (c.view.drop n).map S.token = (d.view.drop n).map S.token := by
    rw [List.map_drop, List.map_drop, h.view]
  rw [Cursor.peek_eq hn, Cursor.peek_eq (hlength ▸ hn)]
  cases hc : c.view.drop n <;> cases hd : d.view.drop n <;> rw [hc, hd] at hdrop
  · exact eof_kind_eq c d
  · simp at hdrop
  · simp at hdrop
  · simp only [List.map_cons, List.cons.injEq] at hdrop
    exact (S.token_kind _).symm.trans ((congrArg Token.kind hdrop.1).trans (S.token_kind _))

/-- A cursor on a certain token has a view. -/
theorem view_pos {k : Kind} (hk : c.current.kind = k) (hend : k ≠ .endOfFile) :
    1 ≤ c.view.length := by
  cases hview : c.view with
  | nil =>
    rw [Cursor.current_of_view_nil hview, Cursor.eof_kind] at hk
    exact absurd hk.symm hend
  | cons t w => simp

theorem peek_one (h : Similar S c d) {k : Kind} (hk : c.current.kind = k)
    (hend : k ≠ .endOfFile) : (c.peek 1).kind = (d.peek 1).kind :=
  h.peek (view_pos hk hend)

theorem startsNested (h : Similar S c d) {k : Kind} (hk : c.current.kind = k)
    (hend : k ≠ .endOfFile) : c.startsNested = d.startsNested := by
  have hone := h.peek_one hk hend
  unfold Cursor.startsNested
  rw [hone]
  cases hname : (d.peek 1).kind.isName with
  | false => simp
  | true =>
    -- The token behind the keyword is a name, so it is not yet the end of the file.
    have htwo : 2 ≤ c.view.length := by
      have hpos := view_pos hk hend
      by_contra hlt
      have hlen : c.view.length = 1 := by omega
      rw [← hone, Cursor.peek_eq hpos, List.drop_of_length_le (by omega)] at hname
      simp [Cursor.eof_kind, Kind.isName] at hname
    rw [h.peek htwo]

theorem namesThenBrace_map (S : Sight) (w : List Token) :
    Cursor.namesThenBrace (w.map S.token) = Cursor.namesThenBrace w := by
  fun_induction Cursor.namesThenBrace w with
  | case1 name next rest ih => simp [Cursor.namesThenBrace, S.token_kind, ih]
  | case2 w hshort =>
    rcases w with _ | ⟨t, _ | ⟨u, rest⟩⟩
    · rfl
    · rfl
    · exact absurd rfl (hshort t u rest)

theorem typeThenBrace_map (S : Sight) (w : List Token) :
    Cursor.typeThenBrace (w.map S.token) = Cursor.typeThenBrace w := by
  cases w with
  | nil => rfl
  | cons t rest =>
    have h := namesThenBrace_map S (t :: rest)
    rw [List.map_cons] at h ⊢
    simp only [Cursor.typeThenBrace, S.token_kind, namesThenBrace_map, h]

theorem startsExtend (h : Similar S c d) {k : Kind} (hk : c.current.kind = k)
    (hend : k ≠ .endOfFile) : c.startsExtend = d.startsExtend := by
  have hview := h.view
  have hpos := view_pos hk hend
  cases hc : c.view with
  | nil => simp [hc] at hpos
  | cons t w =>
    cases hd : d.view with
    | nil => simp [hc, hd] at hview
    | cons u v =>
      simp only [hc, hd, List.map_cons, List.cons.injEq] at hview
      rw [Cursor.startsExtend_eq hc, Cursor.startsExtend_eq hd, ← typeThenBrace_map S w, hview.2,
        typeThenBrace_map]

theorem startsMap (h : Similar S c d) : c.startsMap = d.startsMap := by
  unfold Cursor.startsMap
  rw [← h.kind]
  by_cases hk : c.current.kind = .keyword .map
  · rw [h.peek_one hk nofun]
  · simp [beq_false_of_ne hk]

theorem startsReserved (h : Similar S c d) : c.startsReserved = d.startsReserved := by
  unfold Cursor.startsReserved
  rw [← h.kind]
  by_cases hk : c.current.kind = .keyword .reserved
  · rw [h.peek_one hk nofun]
  · simp [beq_false_of_ne hk]

theorem startsStream (h : Similar S c d) : c.startsStream = d.startsStream := by
  unfold Cursor.startsStream
  rw [← h.kind]
  by_cases hk : c.current.kind = .keyword .stream
  · rw [h.peek_one hk nofun]
  · simp [beq_false_of_ne hk]

theorem classify (h : Similar S c d) : Parser.classify c = Parser.classify d := by
  unfold Parser.classify
  rw [← h.kind]
  split
  · rename_i hk
    rw [h.startsNested hk nofun]
  · rename_i hk
    rw [h.startsNested hk nofun]
  · rename_i hk
    rw [h.startsNested hk nofun]
  · rename_i hk
    rw [h.startsExtend hk nofun]
  · rfl
  · rename_i hk
    rw [h.peek_one hk nofun]
  · rw [h.startsReserved]
  · rfl

end Similar

/-! ## Names, literals and options -/

namespace Parser

theorem seen_textOf {t u : Token} (h : S.token t = S.token u) (hv : t.value = u.value) :
    seen S (textOf t) = seen S (textOf u) := by
  rw [TextLit.seen_eq, TextLit.seen_eq, textOf, textOf, hv, Sight.span_eq h]

theorem seen_numberOf {t u : Token} (h : S.token t = S.token u) (hv : t.value = u.value) :
    seen S (numberOf t) = seen S (numberOf u) := by
  rw [NumberLit.seen_eq, NumberLit.seen_eq, numberOf, numberOf, hv, Sight.span_eq h]

theorem seen_wordOf {t u : Token} (h : S.token t = S.token u) (hv : t.value = u.value) :
    seen S (wordOf t) = seen S (wordOf u) := by
  rw [Name.seen_eq, Name.seen_eq, wordOf, wordOf, hv, Sight.span_eq h]

theorem seen_name_iff {n m : Name} :
    seen S n = seen S m ↔ n.text = m.text ∧ S.span n.span = S.span m.span := by
  rw [Name.seen_eq, Name.seen_eq, Name.mk.injEq]

namespace Agree

theorem name (subject : String) : Agree S (name subject) (name subject) := by
  refine bind current fun t u h => ?_
  by_cases hk : t.kind.isName
  · rw [if_pos hk, if_pos (Sight.kind_eq h ▸ hk)]
    refine bind skip fun _ _ _ => pure ?_
    rw [seen_name_iff]
    exact ⟨Sight.value_eq h (ne_endOfFile_of_isName hk), Sight.span_eq h⟩
  · rw [if_neg hk, if_neg (Sight.kind_eq h ▸ hk)]
    exact want _

theorem segments (subject text : String) :
    Agree S (segments subject text) (segments subject text) := by
  refine loop (fun text text' htext => ?_) rfl
  cases (show text = text' from htext)
  refine bind (accept _) fun o o' ho => ?_
  cases o <;> cases o'
  · exact pure rfl
  · simp at ho
  · simp at ho
  · refine bind current fun t u h => ?_
    by_cases hk : t.kind.isName
    · rw [if_pos hk, if_pos (Sight.kind_eq h ▸ hk)]
      rw [Sight.value_eq h (ne_endOfFile_of_isName hk)]
      exact bind skip fun _ _ _ => pure rfl
    · rw [if_neg hk, if_neg (Sight.kind_eq h ▸ hk)]
      exact bind (report _) fun _ _ _ => pure rfl

theorem dottedName (subject : String) :
    Agree S (dottedName subject) (dottedName subject) := by
  refine bind current fun t u h => ?_
  refine bind (name subject) fun n m hnm => ?_
  rw [(seen_name_iff.1 hnm).1]
  refine bind (segments subject _) fun text text' htext => ?_
  refine bind (spanFrom (Sight.span_eq h)) fun a b hab => pure ?_
  exact seen_name_iff.2 ⟨htext, hab⟩

theorem typeName (subject : String) : Agree S (typeName subject) (typeName subject) := by
  refine bind current fun t u h => ?_
  refine bind (accept _) fun o o' ho => ?_
  refine bind (name subject) fun n m hnm => ?_
  rw [(seen_name_iff.1 hnm).1, isSome_of_seen_eq S ho]
  refine bind (segments subject _) fun text text' htext => ?_
  refine bind (spanFrom (Sight.span_eq h)) fun a b hab => pure ?_
  exact seen_name_iff.2 ⟨htext, hab⟩

theorem optionName : Agree S optionName optionName := by
  refine bind (accept _) fun o o' ho => ?_
  cases o <;> cases o'
  · exact dottedName _
  · simp at ho
  · simp at ho
  · rename_i t u
    have h : S.token t = S.token u := by simpa using ho
    refine bind (typeName _) fun n m hnm => ?_
    refine bind (expect _ _) fun _ _ _ => ?_
    rw [(seen_name_iff.1 hnm).1]
    refine bind (segments _ _) fun text text' htext => ?_
    refine bind (spanFrom (Sight.span_eq h)) fun a b hab => pure ?_
    exact seen_name_iff.2 ⟨htext, hab⟩

theorem optionValue : Agree S optionValue optionValue := by
  refine kind_bind fun k c d hcd hk => ?_
  split
  · refine take_bind hcd (by simp [hk]) fun t u h hv => pure ?_
    rw [seen_some, seen_some, Constant.seen_text, Constant.seen_text, seen_textOf h hv]
  · refine take_bind hcd (by simp [hk]) fun t u h hv => pure ?_
    rw [seen_some, seen_some, Constant.seen_number, Constant.seen_number, seen_numberOf h hv]
  · refine take_bind hcd (by simp [hk]) fun t u h _ => pure ?_
    simp [FlagLit.seen_eq, Sight.span_eq h]
  · refine take_bind hcd (by simp [hk]) fun t u h _ => pure ?_
    simp [FlagLit.seen_eq, Sight.span_eq h]
  · refine bind (report _) (fun _ _ _ => ?_) c d hcd
    split
    · exact bind skip fun _ _ _ => pure rfl
    · exact pure rfl

theorem assignment : Agree S assignment assignment := by
  refine bind current fun t u h => ?_
  refine bind optionName fun n m hnm => ?_
  refine bind (expect _ _) fun _ _ _ => ?_
  refine bind optionValue fun v w hvw => ?_
  refine bind (spanFrom (Sight.span_eq h)) fun a b hab => pure ?_
  simp only [OptionDecl.seen_eq, OptionDecl.mk.injEq]
  exact ⟨hnm, hvw, hab⟩

theorem optionStatement : Agree S optionStatement optionStatement := by
  refine bind skip fun _ _ _ => ?_
  refine bind assignment fun o o' ho => ?_
  exact bind (tolerate (expect _ _)) fun _ _ _ => pure ho

theorem optionSeparator : Agree S optionSeparator optionSeparator := by
  refine bind (accept _) fun o o' ho => ?_
  cases o <;> cases o'
  · refine bind kind fun k k' hk => ?_
    cases (show k = k' from hk)
    split
    all_goals first
      | exact pure rfl
      | exact bind (report _) fun _ _ _ => skip
  · simp at ho
  · simp at ho
  · exact pure rfl

theorem optionList : Agree S optionList optionList := by
  refine bind skip fun _ _ _ => loop (fun os os' hos => ?_) rfl
  refine bind kind fun k k' hk => ?_
  cases (show k = k' from hk)
  split
  · exact bind skip fun _ _ _ => pure (by simp [hos])
  · exact bind (report _) fun _ _ _ => pure (by simp [hos])
  · exact bind (report _) fun _ _ _ => pure (by simp [hos])
  · exact bind (report _) fun _ _ _ => pure (by simp [hos])
  · refine bind (moving (attempt assignment)) fun a b hab => ?_
    obtain ⟨o, moved⟩ := a
    obtain ⟨o', moved'⟩ := b
    simp only [seen_pair, seen_bool, Prod.mk.injEq] at hab
    obtain ⟨ho, rfl⟩ := hab
    dsimp only
    split
    · exact bind optionSeparator fun _ _ _ => pure (by simp [hos, ho])
    · exact pure (by simp [hos, ho])

theorem options : Agree S options options := by
  refine bind kind fun k k' hk => ?_
  cases (show k = k' from hk)
  split
  · exact optionList
  · exact pure rfl

/-! ## Lists of numbers -/

theorem numberOrRange (hcd : Similar S c d) (hk : c.current.kind ≠ .endOfFile) :
    AgreeAt S numberOrRange numberOrRange c d := by
  refine take_bind hcd hk fun t u h hv => ?_
  have hfirst := seen_numberOf h hv
  have hspan : S.span (numberOf t).span = S.span (numberOf u).span := Sight.span_eq h
  refine bind (accept _) fun o o' ho => ?_
  cases o <;> cases o'
  · exact pure (by simp [hfirst])
  · simp at ho
  · simp at ho
  · refine kind_bind fun k c d hcd hk => ?_
    split
    · refine take_bind hcd (by simp [hk]) fun t' u' h' hv' => ?_
      refine bind (spanFrom hspan) fun a b hab => pure ?_
      simp only [NumberOrRange.seen_range, NumberRange.seen_eq, RangeEnd.seen_number, hfirst,
        seen_numberOf h' hv']
      rw [show S.span a = S.span b from hab]
    · refine take_bind hcd (by simp [hk]) fun t' u' h' hv' => ?_
      refine bind (spanFrom hspan) fun a b hab => pure ?_
      simp only [NumberOrRange.seen_range, NumberRange.seen_eq, RangeEnd.seen_max, hfirst,
        seen_wordOf h' hv']
      rw [show S.span a = S.span b from hab]
    · exact bind (report _) (fun _ _ _ => pure (by simp [hfirst])) c d hcd

theorem listItems {σ : Type} [Seen σ] {form : ListForm σ}
    (hitem : ∀ s s' c d, seen S s = seen S s' → Similar S c d → c.current.kind ∈ form.starts →
      AgreeAt S (form.item s) (form.item s') c d)
    (hoptions : ∀ options ∈ form.options?, ∀ s s', seen S s = seen S s' →
      Agree S (options s) (options s')) {a b : Bool × σ} (hab : seen S a = seen S b) :
    Agree S (listItems form a) (listItems form b) := by
  refine loop (fun a b hab => kind_bind fun k c d hcd hk => ?_) hab
  obtain ⟨wanted, s⟩ := a
  obtain ⟨wanted', s'⟩ := b
  simp only [seen_pair, seen_bool, Prod.mk.injEq] at hab
  obtain ⟨rfl, hs⟩ := hab
  dsimp only
  split
  · split
    · refine bind (report _) (fun _ _ _ => ?_) c d hcd
      exact bind skip fun _ _ _ => pure (by simp [hs])
    · exact bind skip (fun _ _ _ => pure (by simp [hs])) c d hcd
  · split
    · exact bind (report _) (fun _ _ _ => pure (by simp [hs])) c d hcd
    · split
      · split
        · rename_i hmem
          refine .bind hcd (hitem s s' c d hs hcd (hk ▸ hmem)) fun x y c' d' _ _ hxy hcd' => ?_
          exact pure (by simp [hxy]) c' d' hcd'
        · refine bind (report _) (fun _ _ _ => ?_) c d hcd
          exact bind skip fun _ _ _ => pure (by simp [hs])
      · split
        · exact bind skip (fun _ _ _ => pure (by simp [hs])) c d hcd
        · split
          · rename_i options hform _ _ _
            refine bind (hoptions options hform s s' hs) (fun x y hxy => ?_) c d hcd
            exact pure (by simp [hxy])
          · refine bind (report _) (fun _ _ _ => ?_) c d hcd
            exact bind skip fun _ _ _ => pure (by simp [hs])

theorem reservedItem {items items' : List ReservedItem} (hitems : seen S items = seen S items')
    (hcd : Similar S c d) (hk : c.current.kind ∈ reservedForm.starts) :
    AgreeAt S (reservedItem items) (reservedItem items') c d := by
  have hend : c.current.kind ≠ .endOfFile := by
    rintro h
    simp [h, reservedForm] at hk
  refine .bind hcd (kind c d hcd) fun k k' c' d' hkind _ hkk' hcd' => ?_
  obtain ⟨rfl, rfl⟩ := yields_kind.1 hkind
  cases (show c'.current.kind = k' from hkk')
  split
  · refine take_bind hcd' hend fun t u h hv => pure ?_
    simp [hitems, seen_textOf h hv]
  · refine .bind hcd' (numberOrRange hcd' hend) fun x y c'' d'' _ _ hxy => ?_
    cases x <;> cases y <;>
      simp only [NumberOrRange.seen_number, NumberOrRange.seen_range, NumberOrRange.number.injEq,
        NumberOrRange.range.injEq, reduceCtorEq] at hxy
    · exact pure (by simp [hitems, hxy]) c'' d''
    · exact pure (by simp [hitems, hxy]) c'' d''

theorem reserved : Agree S reserved reserved := by
  refine bind take fun t u h => ?_
  refine bind (listItems (fun _ _ _ _ => reservedItem) nofun rfl) fun a b hab => ?_
  refine bind (spanFrom (Sight.span_eq h)) fun x y hxy => pure ?_
  simp only [Reserved.seen_eq, Reserved.mk.injEq]
  exact ⟨(Prod.mk.inj hab).2, hxy⟩

theorem extensionItem {lists lists' : List ExtensionRange × List OptionDecl}
    (hlists : seen S lists = seen S lists') (hcd : Similar S c d)
    (hk : c.current.kind ∈ extensionForm.starts) :
    AgreeAt S (extensionItem lists) (extensionItem lists') c d := by
  have hend : c.current.kind ≠ .endOfFile := by
    rintro h
    simp [h, extensionForm] at hk
  obtain ⟨hranges, hoptions⟩ := Prod.mk.inj hlists
  refine .bind hcd (numberOrRange hcd hend) fun x y c' d' _ _ hxy => ?_
  cases x <;> cases y <;>
    simp only [NumberOrRange.seen_number, NumberOrRange.seen_range, NumberOrRange.number.injEq,
      NumberOrRange.range.injEq, reduceCtorEq] at hxy
  · exact pure (by simp [hranges, hoptions, hxy]) c' d'
  · exact pure (by simp [hranges, hoptions, hxy]) c' d'

theorem extensionOptions {lists lists' : List ExtensionRange × List OptionDecl}
    (hlists : seen S lists = seen S lists') :
    Agree S (extensionOptions lists) (extensionOptions lists') := by
  obtain ⟨hranges, hoptions⟩ := Prod.mk.inj hlists
  exact bind optionList fun o o' ho => pure (by simp [hranges, hoptions, ho])

theorem extensionList : Agree S extensionList extensionList := by
  refine bind take fun t u h => ?_
  have hoptions : ∀ options ∈ extensionForm.options?, ∀ s s', seen S s = seen S s' →
      Agree S (options s) (options s') := by
    intro options ho s s' hs
    cases (show Parser.extensionOptions = options from Option.some.inj ho)
    exact extensionOptions hs
  refine bind (listItems (fun _ _ _ _ => extensionItem) hoptions rfl) fun a b hab => ?_
  refine bind (spanFrom (Sight.span_eq h)) fun x y hxy => pure ?_
  obtain ⟨-, hlists⟩ := Prod.mk.inj hab
  simp only [Extensions.seen_eq, Extensions.mk.injEq]
  exact ⟨(Prod.mk.inj hlists).1, (Prod.mk.inj hlists).2, hxy⟩

/-! ## Fields -/

theorem fieldTypeWith {p : Parser FieldType} (hp : Agree S p p) :
    Agree S (fieldTypeWith p) (fieldTypeWith p) := by
  intro c d hcd
  refine .bind hcd (current c d hcd) fun t u c₁ d₁ ht _ h hcd₁ => ?_
  obtain ⟨rfl, rfl⟩ := yields_current.1 ht
  refine .bind hcd₁ (ask (fun _ _ => Similar.startsMap) c₁ d₁ hcd₁)
    fun x y c₂ d₂ hx _ hxy hcd₂ => ?_
  obtain ⟨rfl, rfl⟩ := yields_ask.1 hx
  cases (show c₂.startsMap = y from hxy)
  split
  · rename_i hmap
    have hend : c₂.current.kind ≠ .endOfFile := by
      intro hk
      simp [Cursor.startsMap, hk] at hmap
    refine take_bind hcd₂ hend fun t' u' h' hv' => ?_
    refine bind skip fun _ _ _ => ?_
    refine bind hp fun key key' hkey => ?_
    refine bind (expect _ _) fun _ _ _ => ?_
    refine bind hp fun value value' hvalue => ?_
    refine bind (expect _ _) fun _ _ _ => ?_
    refine bind (spanFrom (Sight.span_eq h)) fun a b hab => pure ?_
    simp only [FieldType.seen_eq, FieldType.mk.injEq, seen_cons, seen_nil, hkey, hvalue, true_and]
    exact ⟨seen_wordOf h' hv', hab⟩
  · refine bind (typeName _) (fun n m hnm => pure ?_) c₂ d₂ hcd₂
    simp only [FieldType.seen_eq, FieldType.mk.injEq, hnm, true_and]
    exact (seen_name_iff.1 hnm).2

theorem fieldType : Agree S fieldType fieldType :=
  recursive fieldTypeWith_local _ fun _ => fieldTypeWith

theorem fieldLabel : Agree S fieldLabel fieldLabel := by
  refine bind kind fun k k' hk => ?_
  cases (show k = k' from hk)
  cases labelOf? k with
  | none => exact pure rfl
  | some label =>
    refine bind take fun t u h => pure ?_
    simp [FieldLabel.seen_eq, Sight.span_eq h]

theorem integer (subject : String) {fault : String → Span → SyntaxError}
    (hfault : ∀ raw a b, S.span a = S.span b → seen S (fault raw a) = seen S (fault raw b)) :
    Agree S (integer subject fault) (integer subject fault) := by
  refine expectAs_bind (by simp) _ fun t u h hv => ?_
  have hn : (numberOf t).integer? = (numberOf u).integer? := by
    simp only [NumberLit.integer?, numberOf, hv]
  refine ite (by rw [hn]) (pure (seen_numberOf h hv)) (reject ?_)
  rw [show (numberOf t).raw = (numberOf u).raw from hv]
  exact hfault _ _ _ (Sight.span_eq h)

theorem field : Agree S field field := by
  refine bind current fun t u h => ?_
  refine bind fieldLabel fun label label' hlabel => ?_
  refine bind fieldType fun type type' htype => ?_
  refine bind (name _) fun n m hnm => ?_
  refine bind (expect _ _) fun _ _ _ => ?_
  refine bind (integer _ fun raw a b hab => ?_) fun number number' hnumber => ?_
  · exact congrArg (SyntaxError.fieldNumber raw) hab
  refine bind options fun os os' hos => ?_
  refine bind (tolerate (expect _ _)) fun _ _ _ => ?_
  refine bind (spanFrom (Sight.span_eq h)) fun a b hab => pure ?_
  simp only [Field.seen_eq, Field.mk.injEq]
  exact ⟨hlabel, htype, hnm, hnumber, hos, hab⟩

/-! ## Enums -/

theorem enumValue : Agree S enumValue enumValue := by
  refine bind current fun t u h => ?_
  refine bind (name _) fun n m hnm => ?_
  refine bind (expect _ _) fun _ _ _ => ?_
  refine bind (integer _ fun raw a b hab => ?_) fun number number' hnumber => ?_
  · exact congrArg (SyntaxError.enumNumber raw) hab
  refine bind options fun os os' hos => ?_
  refine bind (tolerate (expect _ _)) fun _ _ _ => ?_
  refine bind (spanFrom (Sight.span_eq h)) fun a b hab => pure ?_
  simp only [EnumValue.seen_eq, EnumValue.mk.injEq]
  exact ⟨hnm, hnumber, hos, hab⟩

theorem enumStatement {decl decl' : EnumDecl} (h : seen S decl = seen S decl') :
    Agree S (enumStatement decl) (enumStatement decl') := by
  simp only [EnumDecl.seen_eq, EnumDecl.mk.injEq] at h
  obtain ⟨hname, hvalues, hoptions, hreserved, hspan⟩ := h
  refine bind kind fun k k' hk => ite (by rw [show k = k' from hk]) ?_ ?_
  · refine bind (attempt optionStatement) fun o o' ho => pure ?_
    simp [EnumDecl.seen_eq, *]
  · refine bind (ask fun _ _ => Similar.startsReserved) fun x y hxy => ?_
    refine ite (by rw [show x = y from hxy]) ?_ ?_
    · refine bind reserved fun r r' hr => pure ?_
      simp [EnumDecl.seen_eq, *]
    · refine bind (attempt enumValue) fun v v' hv => pure ?_
      simp [EnumDecl.seen_eq, *]

theorem enumDecl : Agree S enumDecl enumDecl := by
  refine bind take fun t u h => ?_
  refine bind (name _) fun n m hnm => ?_
  have hspan := Sight.span_eq h
  refine bind (body _ (by rw [(seen_name_iff.1 hnm).1]) (fun _ _ => enumStatement) ?_)
    fun decl decl' hdecl => ?_
  · simp [EnumDecl.seen_eq, hnm, hspan]
  refine bind (spanFrom hspan) fun a b hab => pure ?_
  simp_all [EnumDecl.seen_eq]

/-! ## Messages -/

theorem oneofStatement {decl decl' : Oneof} (h : seen S decl = seen S decl') :
    Agree S (oneofStatement decl) (oneofStatement decl') := by
  simp only [Oneof.seen_eq, Oneof.mk.injEq] at h
  obtain ⟨hname, hfields, hoptions, hspan⟩ := h
  refine bind kind fun k k' hk => ite (by rw [show k = k' from hk]) ?_ ?_
  · refine bind (attempt optionStatement) fun o o' ho => pure ?_
    simp [Oneof.seen_eq, *]
  · refine bind (attempt field) fun f f' hf => pure ?_
    simp [Oneof.seen_eq, *]

theorem oneof : Agree S oneof oneof := by
  refine bind take fun t u h => ?_
  refine bind (name _) fun n m hnm => ?_
  have hspan := Sight.span_eq h
  refine bind (body _ (by rw [(seen_name_iff.1 hnm).1]) (fun _ _ => oneofStatement) ?_)
    fun decl decl' hdecl => ?_
  · simp [Oneof.seen_eq, hnm, hspan]
  refine bind (spanFrom hspan) fun a b hab => pure ?_
  simp_all [Oneof.seen_eq]

theorem extendStatement {decl decl' : Extend} (h : seen S decl = seen S decl') :
    Agree S (extendStatement decl) (extendStatement decl') := by
  simp only [Extend.seen_eq, Extend.mk.injEq] at h
  obtain ⟨hname, hfields, hspan⟩ := h
  refine bind (attempt field) fun f f' hf => pure ?_
  simp [Extend.seen_eq, *]

theorem extend : Agree S extend extend := by
  refine bind take fun t u h => ?_
  refine bind (typeName _) fun n m hnm => ?_
  have hspan := Sight.span_eq h
  refine bind (body _ (by rw [(seen_name_iff.1 hnm).1]) (fun _ _ => extendStatement) ?_)
    fun decl decl' hdecl => ?_
  · simp [Extend.seen_eq, hnm, hspan]
  refine bind (spanFrom hspan) fun a b hab => pure ?_
  simp_all [Extend.seen_eq]

theorem seen_mergeExtensions {before before' : Option Extensions} {list list' : Extensions}
    (hbefore : seen S before = seen S before') (hlist : seen S list = seen S list') :
    seen S (mergeExtensions before list) = seen S (mergeExtensions before' list') := by
  cases before <;> cases before'
  · exact hlist
  · simp at hbefore
  · simp at hbefore
  · simp only [seen_some, Option.some.injEq, Extensions.seen_eq, Extensions.mk.injEq]
      at hbefore hlist
    simp only [mergeExtensions, Extensions.seen_eq, Extensions.mk.injEq, seen_append, hbefore,
      hlist, true_and]
    exact S.span_through hbefore.2.2 hlist.2.2

theorem messageStatement {p : Parser Message} (hp : Agree S p p) {decl decl' : Message}
    (h : seen S decl = seen S decl') :
    Agree S (messageStatement p decl) (messageStatement p decl') := by
  simp only [Message.seen_eq, Message.mk.injEq] at h
  obtain ⟨_, _, _, _, _, _, _, hextensions, _, _⟩ := h
  refine bind (ask fun _ _ => Similar.classify) fun k k' hk => ?_
  cases (show k = k' from hk)
  cases k with
  | message =>
    refine bind (attempt hp) fun m m' _ => pure ?_
    simp [Message.seen_eq, *]
  | enum =>
    refine bind (attempt enumDecl) fun e e' _ => pure ?_
    simp [Message.seen_eq, *]
  | oneof =>
    refine bind (attempt oneof) fun o o' _ => pure ?_
    simp [Message.seen_eq, *]
  | extend =>
    refine bind (attempt extend) fun e e' _ => pure ?_
    simp [Message.seen_eq, *]
  | option =>
    refine bind (attempt optionStatement) fun o o' _ => pure ?_
    simp [Message.seen_eq, *]
  | extensions =>
    refine bind extensionList fun list list' hlist => pure ?_
    simp [Message.seen_eq, seen_mergeExtensions hextensions hlist, *]
  | reserved =>
    refine bind reserved fun r r' _ => pure ?_
    simp [Message.seen_eq, *]
  | field =>
    refine bind (attempt field) fun f f' _ => pure ?_
    simp [Message.seen_eq, *]

theorem messageWith {p : Parser Message} (hp : Agree S p p) :
    Agree S (messageWith p) (messageWith p) := by
  refine bind take fun t u h => ?_
  refine bind (name _) fun n m hnm => ?_
  have hspan := Sight.span_eq h
  refine bind (body _ (by rw [(seen_name_iff.1 hnm).1]) (fun _ _ => messageStatement hp) ?_)
    fun decl decl' hdecl => ?_
  · simp [Message.seen_eq, emptyMessage, hnm, hspan]
  refine bind (spanFrom hspan) fun a b hab => pure ?_
  simp_all [Message.seen_eq]

theorem message : Agree S message message :=
  recursive messageWith_local _ fun _ => messageWith

/-! ## Services -/

theorem methodType (what : String) : Agree S (methodType what) (methodType what) := by
  refine bind (expect _ _) fun _ _ _ => ?_
  refine bind (ask fun _ _ => Similar.startsStream) fun x y hxy => ?_
  cases (show x = y from hxy)
  have hrest : Agree S
      (do
        let type ← Parser.typeName ("rpc " ++ what ++ " type")
        let _ ← Parser.expect (.symbol .closeParen) ("after rpc " ++ what ++ " type")
        return (x, type))
      (do
        let type ← Parser.typeName ("rpc " ++ what ++ " type")
        let _ ← Parser.expect (.symbol .closeParen) ("after rpc " ++ what ++ " type")
        return (x, type)) := by
    refine bind (typeName _) fun n m hnm => ?_
    exact bind (expect _ _) fun _ _ _ => pure (by simp [hnm])
  exact ite Iff.rfl (bind skip fun _ _ _ => hrest) hrest

theorem methodStatement {os os' : List OptionDecl} (hos : seen S os = seen S os') :
    Agree S (methodStatement os) (methodStatement os') := by
  refine bind kind fun k k' hk => ite (by rw [show k = k' from hk]) ?_ ?_
  · exact bind (attempt optionStatement) fun o o' ho => pure (by simp [hos, ho])
  · exact bind (report _) fun _ _ _ => bind skip fun _ _ _ => pure hos

theorem methodEnd (name : String) : Agree S (methodEnd name) (methodEnd name) := by
  refine bind (accept _) fun o o' ho => ?_
  cases o <;> cases o'
  · exact bind (tolerate (expectAs _ _)) fun _ _ _ => pure rfl
  · simp at ho
  · simp at ho
  · exact block _ _ rfl (fun _ _ => methodStatement) rfl

theorem method : Agree S method method := by
  refine bind take fun t u h => ?_
  refine bind (name _) fun n m hnm => ?_
  refine bind (methodType _) fun request request' hrequest => ?_
  refine bind (expect _ _) fun _ _ _ => ?_
  refine bind (methodType _) fun response response' hresponse => ?_
  rw [(seen_name_iff.1 hnm).1]
  refine bind (methodEnd _) fun os os' hos => ?_
  refine bind (spanFrom (Sight.span_eq h)) fun a b hab => pure ?_
  obtain ⟨hrs, hr⟩ := Prod.mk.inj hrequest
  obtain ⟨hps, hp⟩ := Prod.mk.inj hresponse
  simp only [Method.seen_eq, Method.mk.injEq]
  exact ⟨hnm, hr, hrs, hp, hps, hos, hab⟩

theorem serviceStatement {decl decl' : Service} (h : seen S decl = seen S decl') :
    Agree S (serviceStatement decl) (serviceStatement decl') := by
  have hdecl := h
  simp only [Service.seen_eq, Service.mk.injEq] at hdecl
  obtain ⟨hname, hmethods, hoptions, hspan⟩ := hdecl
  refine bind kind fun k k' hk => ?_
  cases (show k = k' from hk)
  split
  · refine bind (attempt optionStatement) fun o o' ho => pure ?_
    simp [Service.seen_eq, *]
  · refine bind (attempt method) fun x y hxy => pure ?_
    simp [Service.seen_eq, *]
  · exact bind (report _) fun _ _ _ => bind skip fun _ _ _ => pure h

theorem service : Agree S service service := by
  refine bind take fun t u h => ?_
  refine bind (name _) fun n m hnm => ?_
  have hspan := Sight.span_eq h
  refine bind (body _ (by rw [(seen_name_iff.1 hnm).1]) (fun _ _ => serviceStatement) ?_)
    fun decl decl' hdecl => ?_
  · simp [Service.seen_eq, hnm, hspan]
  refine bind (spanFrom hspan) fun a b hab => pure ?_
  simp_all [Service.seen_eq]

/-! ## Files -/

theorem edition : Agree S edition edition := by
  refine bind take fun t u h => ?_
  refine bind (expect _ _) fun _ _ _ => ?_
  refine expectAs_bind (by simp) _ fun version version' hversion hv => ?_
  refine bind (tolerate (expect _ _)) fun _ _ _ => ?_
  refine bind (spanFrom (Sight.span_eq h)) fun a b hab => pure ?_
  simp only [Edition.seen_eq, Edition.mk.injEq]
  exact ⟨seen_textOf hversion hv, hab⟩

theorem package : Agree S package package := by
  refine bind take fun t u h => ?_
  refine bind (dottedName _) fun n m hnm => ?_
  refine bind (tolerate (expect _ _)) fun _ _ _ => ?_
  refine bind (spanFrom (Sight.span_eq h)) fun a b hab => pure ?_
  simp only [Package.seen_eq, Package.mk.injEq]
  exact ⟨hnm, hab⟩

theorem importModifier : Agree S importModifier importModifier := by
  refine bind (accept _) fun o o' ho => ite (by rw [isSome_of_seen_eq S ho]) (pure rfl) ?_
  exact bind (accept _) fun o o' ho => ite (by rw [isSome_of_seen_eq S ho]) (pure rfl) (pure rfl)

theorem importStatement : Agree S importStatement importStatement := by
  refine bind take fun t u h => ?_
  refine bind importModifier fun modifier modifier' hmodifier => ?_
  refine expectAs_bind (by simp) _ fun path path' hpath hv => ?_
  refine bind (tolerate (expect _ _)) fun _ _ _ => ?_
  refine bind (spanFrom (Sight.span_eq h)) fun a b hab => pure ?_
  have hmodifier : modifier = modifier' := by
    cases modifier <;> cases modifier' <;> simp_all
  simp only [Import.seen_eq, Import.mk.injEq]
  exact ⟨seen_textOf hpath hv, hmodifier, hab⟩

theorem editionStatement (isFirst : Bool) {file file' : File} (h : seen S file = seen S file') :
    Agree S (editionStatement isFirst file) (editionStatement isFirst file') := by
  refine bind (attempt edition) fun e e' he => ite Iff.rfl (pure ?_) ?_
  · simp_all [File.seen_eq]
  · cases e <;> cases e'
    · exact pure h
    · simp at he
    · simp at he
    · simp only [seen_some, Option.some.injEq, Edition.seen_eq, Edition.mk.injEq] at he
      exact bind (complain (congrArg SyntaxError.lateEdition he.2)) fun _ _ _ => pure h

theorem packageStatement {file file' : File} (h : seen S file = seen S file') :
    Agree S (packageStatement file) (packageStatement file') := by
  have hfile := h
  simp only [File.seen_eq, File.mk.injEq] at hfile
  refine bind (attempt package) fun p p' hp => ?_
  cases p <;> cases p'
  · exact pure h
  · simp at hp
  · simp at hp
  · rename_i p p'
    simp only [seen_some, Option.some.injEq] at hp
    have hpackage := hp
    simp only [Package.seen_eq, Package.mk.injEq] at hpackage
    refine ite (by rw [isSome_of_seen_eq S hfile.2.1]) ?_ (pure ?_)
    · rw [(seen_name_iff.1 hpackage.1).1]
      refine bind (complain ?_) fun _ _ _ => pure h
      exact congrArg (SyntaxError.repeatedPackage _) hpackage.2
    · simp [File.seen_eq, hp, hfile]

theorem fileStatement (isFirst : Bool) {file file' : File} (h : seen S file = seen S file') :
    Agree S (fileStatement isFirst file) (fileStatement isFirst file') := by
  have hfile := h
  simp only [File.seen_eq, File.mk.injEq] at hfile
  refine bind kind fun k k' hk => ?_
  cases (show k = k' from hk)
  split
  · exact editionStatement isFirst h
  · exact packageStatement h
  · refine bind (attempt importStatement) fun x y hxy => pure ?_
    simp [File.seen_eq, hfile, hxy]
  · refine bind (attempt optionStatement) fun x y hxy => pure ?_
    simp [File.seen_eq, hfile, hxy]
  · refine bind (attempt enumDecl) fun x y hxy => pure ?_
    simp [File.seen_eq, hfile, hxy]
  · refine bind (attempt message) fun x y hxy => pure ?_
    simp [File.seen_eq, hfile, hxy]
  · refine bind (attempt service) fun x y hxy => pure ?_
    simp [File.seen_eq, hfile, hxy]
  · refine bind (attempt extend) fun x y hxy => pure ?_
    simp [File.seen_eq, hfile, hxy]
  · exact bind skip fun _ _ _ => pure h
  · exact bind (report _) fun _ _ _ => bind skip fun _ _ _ => pure h

theorem fileStatements {a b : Bool × File} (hab : seen S a = seen S b) :
    Agree S (fileStatements a) (fileStatements b) := by
  refine loop (fun a b hab => ?_) hab
  obtain ⟨isFirst, file⟩ := a
  obtain ⟨isFirst', file'⟩ := b
  simp only [seen_pair, seen_bool, Prod.mk.injEq] at hab
  obtain ⟨rfl, hfile⟩ := hab
  refine bind kind fun k k' hk => ite (by rw [show k = k' from hk]) ?_ ?_
  · exact pure (by simp [hfile])
  · exact bind (fileStatement isFirst hfile) fun x y hxy => pure (by simp [hxy])

end Agree

end Parser

/-! ## Whole files -/

theorem seen_fileOf {o o' : Option (Bool × File)} (h : seen S o = seen S o') :
    seen S ((o.map Prod.snd).getD {}) = seen S ((o'.map Prod.snd).getD {}) := by
  cases o <;> cases o'
  · rfl
  · simp at h
  · simp at h
  · exact (Prod.mk.inj (Option.some.inj h)).2

theorem seen_withSpan (file : File) (a : Span) :
    seen S { file with span := a } = { seen S file with span := S.span a } :=
  rfl

/-- Two lists of which the same significant tokens are seen are read alike. -/
theorem seen_parse {ts ts' : List Token}
    (hview : (significant ts).map S.token = (significant ts').map S.token)
    (hclose : S.token (closeOf ts) = S.token (closeOf ts')) :
    seen S (parse ts).file = seen S (parse ts').file ∧
      seen S (parse ts).errors = seen S (parse ts').errors := by
  have hcd : Similar S (Cursor.ofTokens ts) (Cursor.ofTokens ts') := by
    refine ⟨?_, ?_, ?_⟩
    · rw [Cursor.view_ofTokens, Cursor.view_ofTokens, hview]
    · rw [Cursor.eof_ofTokens, Cursor.eof_ofTokens, hclose]
    · exact S.near_zero
  obtain ⟨hresult, hstep⟩ := Parser.Agree.fileStatements (a := (true, {})) rfl _ _ hcd
  have hstop := S.near_stop (hstep.similar hcd).span
  constructor
  · have hspan := S.span_extendTo (a := ⟨1, 1, 0, 0⟩) rfl hstop
    simp only [Span.extendTo, Nat.max_zero] at hspan
    simp only [parse, seen_withSpan, seen_fileOf hresult, hspan]
  · obtain ⟨n, new, new', hnew, hnew', hseen⟩ := hstep
    simp only [parse, hnew, hnew', Cursor.after_errors, seen_append, hseen]
    rfl

/-- Reading a list of tokens is reading its significant ones: comments, and whatever follows the end
of the file, leave no trace in the file, its spans or the errors. -/
theorem parse_eq_parse_significant {ts : List Token} {e : Token}
    (he : ts.find? Cursor.isClose = some e) : parse ts = parse (significant ts ++ [e]) := by
  have hclose : Cursor.isClose e = true := List.find?_some he
  have hend : closeOf ts = closeOf (significant ts ++ [e]) := by
    rw [closeOf_concat ts hclose, closeOf, he, Option.getD_some]
  have h := @seen_parse .sharp ts (significant ts ++ [e])
    (by rw [significant_concat ts hclose]) (by rw [hend])
  rw [seen_sharp, seen_sharp, seen_sharp, seen_sharp] at h
  cases hp : parse ts
  cases hq : parse (significant ts ++ [e])
  simpa only [hp, hq, Parsed.mk.injEq] using h

/-- A comment in front, and a statement behind the end of the file, change nothing in how an
unfinished option is read. -/
theorem parse_option_between :
    [(⟨.comment, "// c", ⟨1, 1, 0, 4⟩⟩ : Token), ⟨.keyword .option, "option", ⟨2, 1, 5, 11⟩⟩,
      ⟨.endOfFile, "", ⟨2, 7, 11, 11⟩⟩, ⟨.symbol .semicolon, ";", ⟨2, 7, 11, 12⟩⟩].find?
        Cursor.isClose = some ⟨.endOfFile, "", ⟨2, 7, 11, 11⟩⟩ ∧
    parse [⟨.comment, "// c", ⟨1, 1, 0, 4⟩⟩, ⟨.keyword .option, "option", ⟨2, 1, 5, 11⟩⟩,
        ⟨.endOfFile, "", ⟨2, 7, 11, 11⟩⟩, ⟨.symbol .semicolon, ";", ⟨2, 7, 11, 12⟩⟩] =
      parse [⟨.keyword .option, "option", ⟨2, 1, 5, 11⟩⟩, ⟨.endOfFile, "", ⟨2, 7, 11, 11⟩⟩] :=
  ⟨rfl, parse_eq_parse_significant rfl⟩

end ProtoDecl.Schema
