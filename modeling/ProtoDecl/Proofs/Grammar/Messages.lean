import ProtoDecl.Proofs.Grammar.Declarations

/-!
# Reading messages

In a message the keyword of a declaration may also be the first word of a field, and `classify`
decides by looking ahead.  It takes no statement from another: where an item of the grammar stands,
it is classified as what it is.
-/

namespace ProtoDecl.Schema.Parser

variable {c d : Cursor} {F : Kind → Prop}

/-! ## Classification -/

theorem peek_two_kind {t u : Token} {w : List Token} (h : c.view = t :: u :: w) :
    (c.peek 2).kind = nextKind w := by
  rw [Cursor.peek_two h]
  cases w with
  | nil => exact Cursor.eof_kind c
  | cons x w => rfl

/-- Whether a word begins with a keyword, a name and an opening brace. -/
def Nested (k : Keyword) (w : List Token) : Prop :=
  ∃ t u x v, w = t :: u :: x :: v ∧ t.kind = .keyword k ∧ u.kind.isName = true ∧
    x.kind = .symbol .openBrace

theorem nested_of_bind {α ι : Type} {k : Keyword} {item : Rule ι} {f : Name → List ι → Rule α}
    {w : List Token} {a : α}
    (h : (do
      let _ ← Rule.keyword k
      let name ← Grammar.name
      let items ← Grammar.body item
      f name items : Rule α) w a) : Nested k w := by
  obtain ⟨t, v, _, rfl, ht, hv⟩ := (Rule.token_one _).of_bind h
  obtain ⟨u, v, n, rfl, hu, hv⟩ := name_one.of_bind hv
  obtain ⟨x, v, rfl, hx⟩ := (body_begins item).bind _ v a hv
  exact ⟨t, u, x, v, rfl, ht, hu, hx⟩

theorem startsNested_of_nested {k : Keyword} {w rest : List Token} (h : Nested k w)
    (hview : c.view = w ++ rest) : c.current.kind = .keyword k ∧ c.startsNested = true := by
  obtain ⟨t, u, x, v, rfl, ht, hu, hx⟩ := h
  refine ⟨by rw [Cursor.current_of_view hview, ht], ?_⟩
  rw [Cursor.startsNested, peek_one_kind hview, peek_two_kind hview]
  simp [hu, hx]

theorem classify_message {w rest : List Token} (h : Nested .message w)
    (hview : c.view = w ++ rest) : classify c = .message := by
  obtain ⟨hk, hnested⟩ := startsNested_of_nested h hview
  simp [classify, hk, hnested]

theorem classify_enum {w rest : List Token} {e : EnumDecl} (h : Grammar.enumDecl w e)
    (hview : c.view = w ++ rest) : classify c = .enum := by
  obtain ⟨hk, hnested⟩ := startsNested_of_nested (nested_of_bind h) hview
  simp [classify, hk, hnested]

theorem classify_oneof {w rest : List Token} {o : Oneof} (h : Grammar.oneof w o)
    (hview : c.view = w ++ rest) : classify c = .oneof := by
  obtain ⟨hk, hnested⟩ := startsNested_of_nested (nested_of_bind h) hview
  simp [classify, hk, hnested]

/-- Looking ahead over a name and further segments, there is an opening brace or not. -/
theorem namesThenBrace_eq {t : Token} (ht : t.kind.isName = true) {v : List Token}
    {names : List Name} (hv : Grammar.segment.many v names) {rest : List Token}
    (hrest : nextKind rest ≠ .symbol .dot) :
    Cursor.namesThenBrace (t :: (v ++ rest)) = (nextKind rest == .symbol .openBrace) := by
  induction hv generalizing t with
  | nil =>
    cases rest with
    | nil => rfl
    | cons u rest => simpa [Cursor.namesThenBrace, ht] using fun h _ => absurd h hrest
  | cons head _ ih =>
    obtain ⟨_, _, _, rfl, ⟨dot, rfl, hdot, rfl⟩, hname⟩ := head
    obtain ⟨u, rfl, hu⟩ := name_one _ _ hname
    rw [← ih hu]
    simp [Cursor.namesThenBrace, ht, hdot]

/-- Looking ahead over a type's name finds the opening brace behind it. -/
theorem typeThenBrace_append {u v : List Token} {n : Name} (hn : Grammar.typeName u n) {x : Token}
    (hx : x.kind = .symbol .openBrace) : Cursor.typeThenBrace (u ++ x :: v) = true := by
  have hnext : nextKind (x :: v) ≠ .symbol .dot := by simp [hx]
  obtain ⟨y, u, rfl, ⟨hy, names, hu⟩ | ⟨hy, n', hn'⟩⟩ := typeName_cons hn
  · have hdot : y.kind ≠ .symbol .dot := notDot_of_isName hy
    simp only [List.cons_append, Cursor.typeThenBrace, beq_false_of_ne hdot]
    rw [if_neg Bool.false_ne_true, namesThenBrace_eq hy hu hnext]
    simp [hx]
  · obtain ⟨z, u, names, rfl, hz, hu⟩ := dottedName_cons hn'
    simp only [List.cons_append, Cursor.typeThenBrace, hy, beq_self_eq_true, if_true]
    rw [namesThenBrace_eq hz hu hnext]
    simp [hx]

theorem classify_extend {w rest : List Token} {e : Extend} (h : Grammar.extend w e)
    (hview : c.view = w ++ rest) : classify c = .extend := by
  obtain ⟨t, _, _, rfl, ht, u, v, n, rfl, hn, hv⟩ := (Rule.token_one _).of_bind h
  obtain ⟨x, v, rfl, hx⟩ := (body_begins _).bind _ v e hv
  have hextend : c.startsExtend = true := by
    rw [Cursor.startsExtend_eq hview]
    simpa using typeThenBrace_append (v := v ++ rest) hn hx
  simp [classify, Cursor.current_of_view hview, ht, hextend]

theorem classify_option {w rest : List Token} {o : OptionDecl} (h : Grammar.optionStatement w o)
    (hview : c.view = w ++ rest) : classify c = .option := by
  simp [classify, current_kind_of_begins optionStatement_begins h hview]

theorem classify_extensions {w rest : List Token} {e : Extensions} (h : Grammar.extensionList w e)
    (hview : c.view = w ++ rest) : classify c = .extensions := by
  obtain ⟨t, v, _, rfl, ht, hv⟩ := (Rule.token_one _).of_bind h
  obtain ⟨u, v, rfl, hu⟩ := ((extensionItem_begins.bind _).separated.bind _) v e hv
  simp [classify, Cursor.current_of_view hview, ht, peek_one_kind hview, hu]

theorem classify_reserved {w rest : List Token} {r : Reserved} (h : Grammar.reserved w r)
    (hview : c.view = w ++ rest) : classify c = .reserved := by
  simp [classify, current_kind_of_begins reserved_begins h hview,
    startsReserved_of_reserved h hview]

/-- A field that begins with a name other than a label goes on with further segments, another name
and an equals sign, unless it is of a map type. -/
theorem field_cons {w : List Token} {f : Field} (h : Grammar.field w f) :
    ∃ t v, w = t :: v ∧ ((labelOf? t.kind).isSome = true ∨ t.kind = .keyword .map ∨
      t.kind = .symbol .dot ∨ ∃ u names x y v', Grammar.segment.many u names ∧
        v = u ++ x :: y :: v' ∧ x.kind.isName = true ∧ y.kind = .symbol .equals) := by
  rcases h with ⟨u, v, l, rfl, hl, -⟩ | ⟨⟨u, v, type, rfl, htype, hv⟩, -⟩
  · obtain ⟨t, u, rfl, ht⟩ := fieldLabel_begins u l hl
    exact ⟨t, u ++ v, rfl, .inl ht⟩
  · obtain ⟨t, u, rfl, ht | ht | ⟨-, names, hu⟩⟩ := fieldType_cons htype
    · exact ⟨t, u ++ v, rfl, .inr (.inl ht)⟩
    · exact ⟨t, u ++ v, rfl, .inr (.inr (.inl ht))⟩
    · obtain ⟨x, v, n, rfl, hx, hv⟩ := name_one.of_bind hv
      obtain ⟨y, v, rfl, hy⟩ := (Rule.token_begins _).bind _ v f hv
      exact ⟨t, u ++ x :: y :: v, rfl, .inr (.inr (.inr ⟨u, names, x, y, v, hu, rfl, hx, hy⟩))⟩

/-- What follows the first name of a field could not follow the keyword of a declaration. -/
theorem classify_name {t x y : Token} {u v : List Token} {names : List Name}
    (hu : Grammar.segment.many u names) (hx : x.kind.isName = true)
    (hy : y.kind = .symbol .equals) (hview : c.view = t :: (u ++ x :: y :: v))
    (hoption : t.kind ≠ .keyword .option) : classify c = .field := by
  have hfacts : c.startsNested = false ∧ c.startsExtend = false ∧
      ((c.peek 1).kind.isName = true ∨ (c.peek 1).kind = .symbol .dot) := by
    rw [Cursor.startsNested, Cursor.startsExtend_eq hview]
    cases hu with
    | nil =>
      rw [List.nil_append] at hview ⊢
      rw [peek_one_kind hview, peek_two_kind hview]
      have hdot : x.kind ≠ .symbol .dot := notDot_of_isName hx
      have hbrace : Cursor.namesThenBrace (x :: y :: v) = false := by
        simp [Cursor.namesThenBrace, hy]
      exact ⟨by simp [hy], by simp [Cursor.typeThenBrace, hdot, hbrace], .inl hx⟩
    | cons head tail =>
      obtain ⟨_, _, _, rfl, ⟨dot, rfl, hdot, rfl⟩, hname⟩ := head
      obtain ⟨z, rfl, hz⟩ := name_one _ _ hname
      have hnext : nextKind (x :: y :: v) ≠ .symbol .dot := notDot_of_isName hx
      have hbrace := namesThenBrace_eq hz tail hnext
      rw [beq_false_of_ne (show nextKind (x :: y :: v) ≠ .symbol .openBrace by
        intro h; rw [nextKind_cons] at h; simp [h, Kind.isName] at hx)] at hbrace
      simp only [List.cons_append, List.nil_append] at hview ⊢
      rw [peek_one_kind hview]
      exact ⟨by simp [hdot, Kind.isName], by simp [Cursor.typeThenBrace, hdot, hbrace], .inr hdot⟩
  obtain ⟨hnested, hextend, hnext⟩ := hfacts
  have hnumber : (c.peek 1).kind ≠ .number ∧ (c.peek 1).kind ≠ .text := by
    constructor <;> intro h <;> simp [h, Kind.isName] at hnext
  have hreserved : c.startsReserved = false := by
    simp [Cursor.startsReserved, hnumber]
  rw [classify, Cursor.current_of_view hview]
  split <;> simp_all

theorem classify_field {w rest : List Token} {f : Field} (h : Grammar.memberField w f)
    (hview : c.view = w ++ rest) : classify c = .field := by
  obtain ⟨t, v, rfl, ht⟩ := field_cons h.1
  rcases ht with ht | ht | ht | ⟨u, names, x, y, v, hu, rfl, hx, hy⟩
  · rw [classify, Cursor.current_of_view hview]
    split <;> simp_all [labelOf?]
  · simp [classify, Cursor.current_of_view hview, ht]
  · simp [classify, Cursor.current_of_view hview, ht]
  · exact classify_name hu hx hy (by simpa using hview) (h.2 t rfl)

/-! ## Messages -/

/-- Adds an item to a message. -/
def addMessageItem (decl : Message) : Grammar.MessageItem → Message
  | .message m => { decl with messages := decl.messages ++ [m] }
  | .enum e => { decl with enums := decl.enums ++ [e] }
  | .oneof o => { decl with oneofs := decl.oneofs ++ [o] }
  | .extend e => { decl with extendBlocks := decl.extendBlocks ++ [e] }
  | .option o => { decl with options := decl.options ++ [o] }
  | .extensions e =>
    { decl with extensions := some ⟨(decl.extensions.elim [] Extensions.ranges) ++ e.ranges,
        (decl.extensions.elim [] Extensions.options) ++ e.options, nowhere⟩ }
  | .reserved r => { decl with reserved := decl.reserved ++ [r] }
  | .field f => { decl with fields := decl.fields ++ [f] }

theorem gather_concat (lists : List Extensions) (e : Extensions) :
    Grammar.gather (lists ++ [e]) =
      some ⟨((Grammar.gather lists).elim [] Extensions.ranges) ++ e.ranges,
        ((Grammar.gather lists).elim [] Extensions.options) ++ e.options, nowhere⟩ := by
  cases lists with
  | nil => simp [Grammar.gather]
  | cons l lists => simp [Grammar.gather]

theorem foldl_addMessageItem (n : Name) (items : List Grammar.MessageItem) :
    items.foldl addMessageItem (emptyMessage n nowhere) = Grammar.Message.ofItems n items := by
  induction items using List.reverseRecOn with
  | nil => rfl
  | append_singleton items item ih =>
    rw [List.foldl_append, ih]
    cases item <;> simp [addMessageItem, Grammar.Message.ofItems, gather_concat]

theorem bare_mergeExtensions (before : Option Extensions) (list : Extensions) :
    bare (mergeExtensions before list) =
      ⟨((bare before).elim [] Extensions.ranges) ++ (bare list).ranges,
        ((bare before).elim [] Extensions.options) ++ (bare list).options, nowhere⟩ := by
  cases before with
  | none => rfl
  | some e =>
    exact congrArg₂ (fun r o => (⟨r, o, nowhere⟩ : Extensions)) (seen_append ..) (seen_append ..)

theorem messageStatement_adds {inner : Parser Message} {r : Rule Message}
    (hr : ∀ w m, r w m → Nested .message w)
    (h : Parses (· = .keyword .message) anything inner r) :
    Adds (messageStatement inner) (Grammar.messageItem r) addMessageItem where
  begins := by
    have hmessage : r.Begins (· = .keyword .message) := by
      intro w m hw
      obtain ⟨t, u, x, v, rfl, ht, -⟩ := hr w m hw
      exact ⟨t, u :: x :: v, rfl, ht⟩
    refine .or ((begins_statement hmessage).map _) (.or ((begins_statement enumDecl_begins).map _)
      (.or ((begins_statement oneof_begins).map _) (.or ((begins_statement extend_begins).map _)
      (.or ((begins_statement optionStatement_begins).map _)
      (.or ((begins_statement extensionList_begins).map _)
      (.or ((begins_statement reserved_begins).map _) (.map ?_ _)))))))
    exact memberField_begins.mono fun _ hk => not_noStatement hk.1
  parses decl c := by
    have hopens := opens_classify c
    simp only [Grammar.messageItem, Rule.map_or, Rule.map_map]
    refine Decides.all (x := classify c)
      (.or (.item (fun hw => classify_message (hr _ _ hw)) fun hs => ?message)
        (.or (.item classify_enum fun hs => ?enum) (.or (.item classify_oneof fun hs => ?oneof)
        (.or (.item classify_extend fun hs => ?extend)
        (.or (.item classify_option fun hs => ?option)
        (.or (.item classify_extensions fun hs => ?extensions)
        (.or (.item classify_reserved fun hs => ?reserved)
        (.item classify_field fun hs => ?field)))))))) fun hnone => ?none
    case none => cases hs : classify c <;> simp [hs] at hnone
    all_goals
      rw [hs] at hopens
      refine .ask ?_
      rw [hs]
    case message => exact (h c hopens).add fun m => by simp [Message.seen_eq, addMessageItem]
    case enum =>
      exact (parses_enumDecl hopens).add fun e => by simp [Message.seen_eq, addMessageItem]
    case oneof => exact (parses_oneof hopens).add fun o => by simp [Message.seen_eq, addMessageItem]
    case extend =>
      exact (parses_extend hopens).add fun e => by simp [Message.seen_eq, addMessageItem]
    case option =>
      exact (parses_optionStatement hopens).add fun o => by simp [Message.seen_eq, addMessageItem]
    case extensions =>
      refine (parses_extensionList hopens).map fun e c₁ _ => .pure ?_
      simp [Message.seen_eq, addMessageItem, bare_mergeExtensions]
    case reserved =>
      refine (parses_reserved hopens).map fun e c₁ _ => .pure ?_
      simp [Message.seen_eq, addMessageItem]
    case field =>
      have hk : ¬c.current.kind = .keyword .option := hopens
      exact (parses_field.notAt hk).add fun f => by simp [Message.seen_eq, addMessageItem]

theorem messageItem_le {r s : Rule Message} (h : r.Le s) :
    (Grammar.messageItem r).Le (Grammar.messageItem s) :=
  (h.map _).or (.refl _)

theorem messageWith_le (r s : Rule Message) (h : r.Le s) :
    (Grammar.messageWith r).Le (Grammar.messageWith s) := by
  refine (Rule.Le.refl _).bind fun _ => (Rule.Le.refl _).bind fun n => ?_
  refine Rule.Le.bind ?_ fun items => .refl _
  refine (Rule.Le.refl _).bind fun _ => Rule.Le.bind ?_ fun _ => .refl _
  exact (((messageItem_le h).map _).or (.refl _)).many

theorem message_begins : Grammar.message.Begins (· = .keyword .message) := by
  rintro w m ⟨n, h⟩
  cases n with
  | zero => exact h.elim
  | succ n =>
    rw [Function.iterate_succ_apply'] at h
    exact (Rule.token_begins _).bind _ w m h

theorem bare_emptyMessage (n : Name) (span : Span) :
    bare (emptyMessage n span) = emptyMessage (bare n) nowhere := by
  rw [bare, Message.seen_eq]
  rfl

theorem bare_withSpan (decl : Message) (span : Span) :
    bare { decl with span } = { bare decl with span := nowhere } := by
  rw [bare, Message.seen_eq, bare, Message.seen_eq]
  rfl

theorem parses_message : Parses (· = .keyword .message) anything message Grammar.message := by
  refine .recursive messageWith_local _ messageWith_le
    (I := fun r => ∀ w m, r w m → Nested .message w) (fun _ _ h => h.elim)
    (fun r w m => nested_of_bind) ?_
  intro inner r hr hinner c hk
  refine .take hk (by simp) (.seq (parses_name _) fun n c₁ _ => ?_)
  refine (parses_body (messageStatement_adds hr hinner) _).finish fun decl items hdecl span => ?_
  rw [bare_emptyMessage, foldl_addMessageItem] at hdecl
  rw [bare_withSpan, hdecl]
  rfl

end ProtoDecl.Schema.Parser
