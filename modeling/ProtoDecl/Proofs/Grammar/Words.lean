import ProtoDecl.Proofs.Grammar.Language

/-!
# Words of the grammar

How the words of some rules look, whatever tree they stand for.

* `Rule.Every`: all words of a rule have some property;
* `Plain`: there are neither braces nor brackets;
* `Balanced`: every brace has its counterpart.  All statements within declarations are balanced
  (`Rule.Nests`), because braces only come from `Grammar.body`;
* `Enclosed`: a declaration with a body begins with its keyword, and its last token closes the first
  brace;
* `Rule.Ends`: the last token of a word is of some kind;
* `spelling`: the text of a name is that of its tokens.
-/

namespace ProtoDecl

/-- Whether a kind of token opens or closes a body. -/
def Kind.isBrace (k : Kind) : Bool :=
  k == .symbol .openBrace || k == .symbol .closeBrace

/-- Whether a kind of token opens or closes a list of options. -/
def Kind.isBracket (k : Kind) : Bool :=
  k == .symbol .openBracket || k == .symbol .closeBracket

/-- Whether tokens of this kind occur in names. -/
def Kind.isNamePart (k : Kind) : Bool :=
  k.isName || k == .symbol .dot || k == .symbol .openParen || k == .symbol .closeParen

theorem Kind.isNamePart_of_isName {k : Kind} (h : k.isName = true) : k.isNamePart = true := by
  simp [isNamePart, h]

theorem Kind.isBrace_of_isNamePart {k : Kind} (h : k.isNamePart = true) : k.isBrace = false := by
  cases k with
  | symbol m => cases m <;> first | rfl | exact absurd h (by decide)
  | _ => rfl

theorem Kind.isBracket_of_isNamePart {k : Kind} (h : k.isNamePart = true) :
    k.isBracket = false := by
  cases k with
  | symbol m => cases m <;> first | rfl | exact absurd h (by decide)
  | _ => rfl

/-- A symbol is written as its character. -/
def Token.Marked (t : Token) : Prop :=
  ∀ m, t.kind = .symbol m → t.value.toList = [m.char]

namespace Schema

/-! ## Braces -/

/-- Tokens among which every brace has its counterpart. -/
inductive Balanced : List Token → Prop
  | nil : Balanced []
  | token {t : Token} (h : t.kind.isBrace = false) : Balanced [t]
  | append {u v : List Token} (hu : Balanced u) (hv : Balanced v) : Balanced (u ++ v)
  | braces {o e : Token} {inner : List Token} (ho : o.kind = .symbol .openBrace)
      (hinner : Balanced inner) (he : e.kind = .symbol .closeBrace) : Balanced (o :: (inner ++ [e]))

theorem Balanced.of_forall {w : List Token} (h : ∀ t ∈ w, t.kind.isBrace = false) :
    Balanced w := by
  induction w with
  | nil => exact .nil
  | cons t w ih =>
    have hrest := ih fun u hu => h u (List.mem_cons_of_mem t hu)
    exact .append (.token (h t List.mem_cons_self)) hrest

/-- The tokens of a declaration with a body: its keyword, a head without braces, and a brace that
the last token closes. -/
inductive Enclosed (k : Keyword) : List Token → Prop
  | mk {t o e : Token} {head inner : List Token} (ht : t.kind = .keyword k)
      (hhead : ∀ u ∈ head, u.kind.isBrace = false) (ho : o.kind = .symbol .openBrace)
      (hinner : Balanced inner) (he : e.kind = .symbol .closeBrace) :
      Enclosed k (t :: (head ++ o :: (inner ++ [e])))

theorem Enclosed.balanced {k : Keyword} {w : List Token} (h : Enclosed k w) : Balanced w := by
  obtain ⟨ht, hhead, ho, hinner, he⟩ := h
  have hkeyword : Balanced [_] := .token (by rw [ht]; rfl)
  exact .append hkeyword (.append (.of_forall hhead) (.braces ho hinner he))

namespace Rule

variable {α β : Type} {r s : Rule α} {f : α → Rule β}

/-- Properties of words that go over to words side by side. -/
class Composes (P : List Token → Prop) : Prop where
  nil : P []
  append : ∀ {u v : List Token}, P u → P v → P (u ++ v)

/-- Whether every word of the rule has a property. -/
def Every (P : List Token → Prop) (r : Rule α) : Prop :=
  ∀ w a, r w a → P w

namespace Every

variable {P : List Token → Prop}

theorem mono {Q : List Token → Prop} (hr : r.Every P) (h : ∀ w, P w → Q w) : r.Every Q :=
  fun w a hw => h w (hr w a hw)

theorem map (hr : r.Every P) (f : α → β) : (f <$> r).Every P := by
  rintro w b ⟨a, ha, -⟩
  exact hr w a ha

theorem or (hr : r.Every P) (hs : s.Every P) : (r <|> s).Every P := by
  rintro w a (ha | ha)
  · exact hr w a ha
  · exact hs w a ha

theorem terminal {Q : Kind → Prop} (h : ∀ t, Q t.kind → P [t]) : (Rule.terminal Q).Every P := by
  rintro w t ⟨u, rfl, hu, -⟩
  exact h u hu

theorem satisfying (hr : r.Every P) (Q : α → Prop) : (r.satisfying Q).Every P :=
  fun w a hw => hr w a hw.1

theorem notAt (hr : r.Every P) (Q : Kind → Prop) : (r.notAt Q).Every P :=
  fun w a hw => hr w a hw.1

theorem iterate {step : Rule α → Rule α} (hstep : ∀ r, r.Every P → (step r).Every P) (n : Nat) :
    (step^[n] nothing).Every P := by
  induction n with
  | zero => exact fun _ _ hfalse => hfalse.elim
  | succ n ih =>
    rw [Function.iterate_succ_apply']
    exact hstep _ ih

theorem nested {step : Rule α → Rule α} (hstep : ∀ r, r.Every P → (step r).Every P) :
    (Rule.nested step).Every P := by
  rintro w a ⟨n, hn⟩
  exact iterate hstep n w a hn

variable [Composes P]

theorem pure (a : α) : (Pure.pure a : Rule α).Every P := by
  rintro w b ⟨rfl, -⟩
  exact Composes.nil

theorem bind (hr : r.Every P) (hf : ∀ a, (f a).Every P) : (r >>= f).Every P := by
  rintro w b ⟨u, v, a, rfl, hu, hv⟩
  exact Composes.append (hr u a hu) (hf a v b hv)

theorem many (hr : r.Every P) : r.many.Every P := by
  intro w as hw
  induction hw with
  | nil => exact Composes.nil
  | cons head _ ih => exact Composes.append (hr _ _ head) ih

theorem separated (hcomma : (symbol .comma).Every P) (hr : r.Every P) : r.separated.Every P :=
  hr.bind fun _ => (many (hcomma.bind fun _ => hr)).bind fun _ => pure _

end Every

instance : Composes Balanced where
  nil := .nil
  append := .append

/-- Whether every word of the rule is balanced. -/
def Nests (r : Rule α) : Prop :=
  ∀ w a, r w a → Balanced w

namespace Nests

theorem pure (a : α) : (Pure.pure a : Rule α).Nests :=
  Every.pure a

theorem bind (hr : r.Nests) (hf : ∀ a, (f a).Nests) : (r >>= f).Nests :=
  Every.bind hr hf

theorem map (hr : r.Nests) (f : α → β) : (f <$> r).Nests :=
  Every.map hr f

theorem or (hr : r.Nests) (hs : s.Nests) : (r <|> s).Nests :=
  Every.or hr hs

theorem terminal {P : Kind → Prop} (h : ∀ k, P k → k.isBrace = false) :
    (Rule.terminal P).Nests :=
  Every.terminal fun _ ht => .token (h _ ht)

theorem token {k : Kind} (h : k.isBrace = false) : (Rule.token k).Nests :=
  terminal fun _ hk => hk ▸ h

theorem many (hr : r.Nests) : r.many.Nests :=
  Every.many hr

theorem separated (hr : r.Nests) : r.separated.Nests :=
  Every.separated (token rfl) hr

theorem satisfying (hr : r.Nests) (P : α → Prop) : (r.satisfying P).Nests :=
  Every.satisfying hr P

theorem notAt (hr : r.Nests) (P : Kind → Prop) : (r.notAt P).Nests :=
  Every.notAt hr P

theorem nested {step : Rule α → Rule α} (hstep : ∀ r, r.Nests → (step r).Nests) :
    (Rule.nested step).Nests :=
  Every.nested hstep

end Nests

/-- Whether the last token of every word of the rule is of some kind. -/
def Ends (r : Rule α) (k : Kind) : Prop :=
  ∀ w a, r w a → ∃ u t, w = u ++ [t] ∧ t.kind = k

namespace Ends

variable {k : Kind}

theorem bind (hf : ∀ a, (f a).Ends k) : (r >>= f).Ends k := by
  rintro w b ⟨u, v, a, rfl, -, hv⟩
  obtain ⟨v', t, rfl, ht⟩ := hf a v b hv
  exact ⟨u ++ v', t, (List.append_assoc ..).symm, ht⟩

theorem last (f : Token → β) : (Rule.token k >>= fun t => Pure.pure (f t)).Ends k := by
  rw [bind_pure]
  rintro w b ⟨_, ⟨t, rfl, ht, -⟩, -⟩
  exact ⟨[], t, rfl, ht⟩

theorem or (hr : r.Ends k) (hs : s.Ends k) : (r <|> s).Ends k := by
  rintro w a (ha | ha)
  · exact hr w a ha
  · exact hs w a ha

theorem notAt (hr : r.Ends k) (P : Kind → Prop) : (r.notAt P).Ends k :=
  fun w a hw => hr w a hw.1

end Ends

end Rule

/-! ## Names -/

/-- The text of some tokens side by side. -/
def spelling (w : List Token) : List Char :=
  w.flatMap fun t => t.value.toList

theorem spelling_append (u v : List Token) : spelling (u ++ v) = spelling u ++ spelling v :=
  List.flatMap_append

theorem spelling_singleton (t : Token) : spelling [t] = t.value.toList := by
  simp [spelling]

/-- The tokens of a name, and its text. -/
structure Spelt (w : List Token) (text : List Char) : Prop where
  parts : ∀ t ∈ w, t.kind.isNamePart = true
  text : (∀ t ∈ w, t.Marked) → text = spelling w

namespace Spelt

variable {w v : List Token} {a b : List Char} {t : Token}

theorem append (hw : Spelt w a) (hv : Spelt v b) : Spelt (w ++ v) (a ++ b) where
  parts t ht := (List.mem_append.1 ht).elim (hw.parts t) (hv.parts t)
  text h := by
    have hleft := hw.text fun t ht => h t (List.mem_append_left _ ht)
    have hright := hv.text fun t ht => h t (List.mem_append_right _ ht)
    rw [spelling_append, hleft, hright]

theorem name (ht : t.kind.isName = true) : Spelt [t] t.value.toList where
  parts _ hu := List.mem_singleton.1 hu ▸ Kind.isNamePart_of_isName ht
  text _ := (spelling_singleton t).symm

theorem mark {m : Symbol} (hm : (Kind.symbol m).isNamePart = true) (ht : t.kind = .symbol m) :
    Spelt [t] [m.char] where
  parts _ hu := by
    rw [List.mem_singleton.1 hu, ht]
    exact hm
  text h := by rw [spelling_singleton, h t List.mem_cons_self m ht]

theorem isBrace (h : Spelt w a) : ∀ t ∈ w, t.kind.isBrace = false :=
  fun t ht => Kind.isBrace_of_isNamePart (h.parts t ht)

end Spelt

/-- Tokens with neither braces nor brackets. -/
def Plain (w : List Token) : Prop :=
  ∀ t ∈ w, t.kind.isBrace = false ∧ t.kind.isBracket = false

instance : Rule.Composes Plain where
  nil _ ht := absurd ht List.not_mem_nil
  append hu hv t ht := (List.mem_append.1 ht).elim (hu t) (hv t)

theorem Plain.balanced {w : List Token} (h : Plain w) : Balanced w :=
  .of_forall fun t ht => (h t ht).1

theorem Spelt.plain {w : List Token} {text : List Char} (h : Spelt w text) : Plain w :=
  fun t ht => ⟨h.isBrace t ht, Kind.isBracket_of_isNamePart (h.parts t ht)⟩

namespace Grammar

open Rule

theorem spelt_name {w : List Token} {n : Name} (h : name w n) : Spelt w n.text.toList := by
  obtain ⟨_, _, _, rfl, ⟨t, rfl, ht, rfl⟩, rfl, rfl⟩ := h
  exact .name ht

theorem spelt_segments {text text' : String} {w v : List Token} (h : Spelt w text.toList)
    (hv : segments text v text') : Spelt (w ++ v) text'.toList := by
  obtain ⟨names, hnames, rfl⟩ := hv
  induction hnames generalizing text w with
  | nil => simpa using h
  | @cons u v n names head tail ih =>
    obtain ⟨_, u, _, rfl, ⟨dot, rfl, hdot, rfl⟩, hn⟩ := head
    have hmore : Spelt (w ++ ([dot] ++ u)) (text ++ "." ++ n.text).toList := by
      rw [String.append_assoc, String.toList_append, String.toList_append]
      exact h.append ((Spelt.mark rfl hdot).append (spelt_name hn))
    have hrest := ih hmore
    rw [List.append_assoc] at hrest
    exact hrest

theorem spelt_dottedName {w : List Token} {n : Name} (h : dottedName w n) :
    Spelt w n.text.toList := by
  obtain ⟨u, _, first, rfl, hfirst, v, _, text, rfl, hv, rfl, rfl⟩ := h
  rw [List.append_nil]
  exact spelt_segments (spelt_name hfirst) hv

theorem spelt_typeName {w : List Token} {n : Name} (h : typeName w n) :
    Spelt w n.text.toList := by
  rcases h with h | ⟨_, _, _, rfl, ⟨dot, rfl, hdot, rfl⟩, u, _, first, rfl, hfirst, v, _, text, rfl,
    hv, rfl, rfl⟩
  · exact spelt_dottedName h
  · have hstart : Spelt ([dot] ++ u) ("." ++ first.text).toList := by
      rw [String.toList_append]
      exact (Spelt.mark rfl hdot).append (spelt_name hfirst)
    have hname := spelt_segments hstart hv
    simpa using hname

theorem spelt_optionName {w : List Token} {n : Name} (h : optionName w n) :
    Spelt w n.text.toList := by
  rcases h with h | ⟨_, _, _, rfl, ⟨o, rfl, ho, rfl⟩, u, _, extension, rfl, hextension, _, _, _,
    rfl, ⟨e, rfl, he, rfl⟩, v, _, text, rfl, hv, rfl, rfl⟩
  · exact spelt_dottedName h
  · have hstart : Spelt ([o] ++ (u ++ [e])) ("(" ++ extension.text ++ ")").toList := by
      rw [String.append_assoc, String.toList_append, String.toList_append]
      exact (Spelt.mark rfl ho).append ((spelt_typeName hextension).append (.mark rfl he))
    have hname := spelt_segments hstart hv
    simpa using hname

/-! ## Statements -/

theorem token_plain {k : Kind} (hbrace : k.isBrace = false) (hbracket : k.isBracket = false) :
    (token k).Every Plain := by
  refine .terminal fun t ht u hu => ?_
  rw [List.mem_singleton.1 hu, ht]
  exact ⟨hbrace, hbracket⟩

theorem name_plain : name.Every Plain :=
  fun _ _ h => (spelt_name h).plain

theorem dottedName_plain : dottedName.Every Plain :=
  fun _ _ h => (spelt_dottedName h).plain

theorem typeName_plain : typeName.Every Plain :=
  fun _ _ h => (spelt_typeName h).plain

theorem text_plain : text.Every Plain :=
  .map (token_plain rfl rfl) _

theorem number_plain : number.Every Plain :=
  .map (token_plain rfl rfl) _

theorem assignment_plain : assignment.Every Plain := by
  have hname : optionName.Every Plain := fun _ _ h => (spelt_optionName h).plain
  have hconstant : constant.Every Plain := by
    refine .or (text_plain.map _) (.or (number_plain.map _) (.or ?_ ?_))
    · exact .map (token_plain rfl rfl) _
    · exact .map (token_plain rfl rfl) _
  exact hname.bind fun _ => (token_plain rfl rfl).bind fun _ =>
    (hconstant.map _).bind fun _ => .pure _

theorem assignments_plain : (separated assignment).Every Plain :=
  .separated (token_plain rfl rfl) assignment_plain

theorem optionEntries_plain : optionEntries.Every Plain := by
  refine .or (.pure _) (.or assignments_plain ?_)
  exact assignments_plain.bind fun _ => (token_plain rfl rfl).bind fun _ => .pure _

theorem optionStatement_plain : optionStatement.Every Plain :=
  (token_plain rfl rfl).bind fun _ => assignment_plain.bind fun _ =>
    (token_plain rfl rfl).bind fun _ => .pure _

theorem numberOrRange_plain : numberOrRange.Every Plain := by
  have hend : rangeEnd.Every Plain := .or (number_plain.map _) (.map (token_plain rfl rfl) _)
  refine .or (number_plain.map _) (number_plain.bind fun _ => (token_plain rfl rfl).bind fun _ => ?_)
  exact hend.bind fun _ => .pure _

theorem reserved_plain : reserved.Every Plain := by
  have hitem : reservedItem.Every Plain := .or (text_plain.map _) (numberOrRange_plain.map _)
  refine (token_plain rfl rfl).bind fun _ => .bind (.separated (token_plain rfl rfl) hitem) ?_
  exact fun _ => (token_plain rfl rfl).bind fun _ => .pure _

theorem fieldType_plain : fieldType.Every Plain := by
  refine .nested fun inner hinner => .or ?_ (typeName_plain.map _)
  refine (token_plain rfl rfl).bind fun _ => (token_plain rfl rfl).bind fun _ => ?_
  refine hinner.bind fun _ => (token_plain rfl rfl).bind fun _ => hinner.bind fun _ => ?_
  exact (token_plain rfl rfl).bind fun _ => .pure _

theorem fieldLabel_plain : fieldLabel.Every Plain := by
  refine .or (.map (token_plain rfl rfl) _) (.or ?_ ?_)
  · exact .map (token_plain rfl rfl) _
  · exact .map (token_plain rfl rfl) _

theorem methodType_plain : methodType.Every Plain := by
  have hunmarked : unmarkedType.Every Plain := fun _ _ h => typeName_plain _ _ h.1
  refine (token_plain rfl rfl).bind fun _ => .bind (.or ?_ (hunmarked.map _)) fun _ => ?_
  · exact (token_plain rfl rfl).bind fun _ => typeName_plain.bind fun _ => .pure _
  · exact (token_plain rfl rfl).bind fun _ => .pure _

theorem name_nests : name.Nests :=
  name_plain.mono fun _ => Plain.balanced

theorem number_nests : number.Nests :=
  number_plain.mono fun _ => Plain.balanced

theorem optionStatement_nests : optionStatement.Nests :=
  optionStatement_plain.mono fun _ => Plain.balanced

theorem reserved_nests : reserved.Nests :=
  reserved_plain.mono fun _ => Plain.balanced

theorem optionList_nests : optionList.Nests := by
  have hentries : optionEntries.Nests := optionEntries_plain.mono fun _ => Plain.balanced
  exact (Nests.token rfl).bind fun _ => hentries.bind fun _ =>
    (Nests.token rfl).bind fun _ => .pure _

theorem options_nests : options.Nests :=
  .or optionList_nests (.pure _)

theorem extensionList_nests : extensionList.Nests := by
  have hrange : numberOrRange.Nests := numberOrRange_plain.mono fun _ => Plain.balanced
  have hitem : extensionItem.Nests :=
    (hrange.map _).bind fun _ => optionList_nests.many.bind fun _ => .pure _
  exact (Nests.token rfl).bind fun _ => hitem.separated.bind fun _ =>
    (Nests.token rfl).bind fun _ => .pure _

theorem field_nests : field.Nests := by
  have hlabel : fieldLabel.Nests := fieldLabel_plain.mono fun _ => Plain.balanced
  have htype : fieldType.Nests := fieldType_plain.mono fun _ => Plain.balanced
  have hfield (label : Option FieldLabel) : (labelledField label).Nests := by
    refine htype.bind fun _ => name_nests.bind fun _ => (Nests.token rfl).bind fun _ => ?_
    refine (number_nests.satisfying _).bind fun _ => options_nests.bind fun _ => ?_
    exact (Nests.token rfl).bind fun _ => .pure _
  exact .or (hlabel.bind fun _ => hfield _) ((hfield none).notAt _)

theorem enumValue_nests : enumValue.Nests := by
  refine name_nests.bind fun _ => (Nests.token rfl).bind fun _ => ?_
  refine (number_nests.satisfying _).bind fun _ => options_nests.bind fun _ => ?_
  exact (Nests.token rfl).bind fun _ => .pure _

/-! ## Declarations -/

/-- A body is a pair of braces with balanced tokens between. -/
theorem body_braces {ι : Type} {item : Rule ι} (hitem : item.Nests) {w : List Token}
    {items : List ι} (h : body item w items) :
    ∃ o inner e, w = o :: (inner ++ [e]) ∧ o.kind = .symbol .openBrace ∧ Balanced inner ∧
      e.kind = .symbol .closeBrace := by
  obtain ⟨_, _, _, rfl, ⟨o, rfl, ho, rfl⟩, inner, _, found, rfl, hinner, _, _, _, rfl,
    ⟨e, rfl, he, rfl⟩, rfl, rfl⟩ := h
  have hentry : (some <$> item <|> (fun _ => none) <$> symbol .semicolon : Rule (Option ι)).Nests :=
    .or (hitem.map _) (.map (.token rfl) _)
  exact ⟨o, inner, e, rfl, ho, hentry.many inner found hinner, he⟩

/-- A keyword, a head without braces and a body. -/
theorem enclosed_of_body {α β ι : Type} {k : Keyword} {head : Rule α} {item : Rule ι}
    {f : α → List ι → β} (hhead : ∀ w a, head w a → ∀ t ∈ w, t.kind.isBrace = false)
    (hitem : item.Nests) {w : List Token} {b : β}
    (h : (do let _ ← keyword k; let a ← head; let items ← body item; return f a items : Rule β)
      w b) : Enclosed k w := by
  obtain ⟨_, _, _, rfl, ⟨t, rfl, ht, rfl⟩, u, _, a, rfl, ha, v, _, items, rfl, hv, rfl, rfl⟩ := h
  obtain ⟨o, inner, e, rfl, ho, hinner, he⟩ := body_braces hitem hv
  rw [List.append_nil]
  exact .mk ht (hhead u a ha) ho hinner he

theorem enumDecl_enclosed {w : List Token} {e : EnumDecl} (h : enumDecl w e) :
    Enclosed .enum w := by
  have hitem : enumItem.Nests := by
    refine .or (optionStatement_nests.map _) (.or (reserved_nests.map _) ?_)
    exact (enumValue_nests.notAt _).map _
  exact enclosed_of_body (fun _ _ hn => (spelt_name hn).isBrace) hitem h

theorem oneof_enclosed {w : List Token} {o : Oneof} (h : oneof w o) : Enclosed .oneof w := by
  have hitem : oneofItem.Nests :=
    .or (optionStatement_nests.map _) ((field_nests.notAt _).map _)
  exact enclosed_of_body (fun _ _ hn => (spelt_name hn).isBrace) hitem h

theorem extend_enclosed {w : List Token} {e : Extend} (h : extend w e) : Enclosed .extend w :=
  enclosed_of_body (fun _ _ hn => (spelt_typeName hn).isBrace) field_nests h

theorem messageItem_nests {inner : Rule Message} (hinner : inner.Nests) :
    (messageItem inner).Nests := by
  have henum : enumDecl.Nests := fun _ _ h => (enumDecl_enclosed h).balanced
  have honeof : oneof.Nests := fun _ _ h => (oneof_enclosed h).balanced
  have hextend : extend.Nests := fun _ _ h => (extend_enclosed h).balanced
  refine .or (hinner.map _) (.or (henum.map _) (.or (honeof.map _) (.or (hextend.map _) ?_)))
  refine .or (optionStatement_nests.map _) (.or (extensionList_nests.map _) ?_)
  exact .or (reserved_nests.map _) ((field_nests.notAt _).map _)

theorem messageWith_enclosed {inner : Rule Message} (hinner : inner.Nests) {w : List Token}
    {m : Message} (h : messageWith inner w m) : Enclosed .message w :=
  enclosed_of_body (fun _ _ hn => (spelt_name hn).isBrace) (messageItem_nests hinner) h

theorem message_enclosed {w : List Token} {m : Message} (h : message w m) :
    Enclosed .message w := by
  have hstep : ∀ r : Rule Message, r.Nests → (messageWith r).Nests :=
    fun _ hr _ _ h => (messageWith_enclosed hr h).balanced
  obtain ⟨n, hn⟩ := h
  cases n with
  | zero => exact hn.elim
  | succ n =>
    rw [Function.iterate_succ_apply'] at hn
    exact messageWith_enclosed (Every.iterate hstep n) hn

theorem service_enclosed {w : List Token} {s : Service} (h : service w s) :
    Enclosed .service w := by
  have htype : methodType.Nests := methodType_plain.mono fun _ => Plain.balanced
  have hend : methodEnd.Nests := by
    refine .or (.map (.token rfl) _) fun w os hbody => ?_
    obtain ⟨o, inner, e, rfl, ho, hinner, he⟩ := body_braces optionStatement_nests hbody
    exact .braces ho hinner he
  have hmethod : method.Nests := by
    refine (Nests.token rfl).bind fun _ => name_nests.bind fun _ => htype.bind fun _ => ?_
    refine (Nests.token rfl).bind fun _ => htype.bind fun _ => hend.bind fun _ => .pure _
  have hitem : serviceItem.Nests := .or (optionStatement_nests.map _) (hmethod.map _)
  exact enclosed_of_body (fun _ _ hn => (spelt_name hn).isBrace) hitem h

/-! ## Statements that end with a semicolon -/

theorem field_ends : field.Ends (.symbol .semicolon) := by
  have hfield (label : Option FieldLabel) : (labelledField label).Ends (.symbol .semicolon) :=
    .bind fun _ => .bind fun _ => .bind fun _ => .bind fun _ => .bind fun _ => .last _
  exact .or (.bind fun _ => hfield _) ((hfield none).notAt _)

theorem enumValue_ends : enumValue.Ends (.symbol .semicolon) :=
  .bind fun _ => .bind fun _ => .bind fun _ => .bind fun _ => .last _

theorem reserved_ends : reserved.Ends (.symbol .semicolon) :=
  .bind fun _ => .bind fun _ => .last _

theorem edition_ends : edition.Ends (.symbol .semicolon) :=
  .bind fun _ => .bind fun _ => .bind fun _ => .last _

theorem package_ends : package.Ends (.symbol .semicolon) :=
  .bind fun _ => .bind fun _ => .last _

theorem importStatement_ends : importStatement.Ends (.symbol .semicolon) :=
  .bind fun _ => .bind fun _ => .bind fun _ => .last _

end Grammar

end Schema

end ProtoDecl
