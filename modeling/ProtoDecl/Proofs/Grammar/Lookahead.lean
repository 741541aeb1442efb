import ProtoDecl.Proofs.Grammar.Messages
import ProtoDecl.Proofs.Spans.Parse

/-!
# Looking ahead and reading on

Messages, enums, groups of alternatives and blocks that extend a message are read alike: a keyword,
a name, and statements between braces.  `BlockForm` says what distinguishes them.

In a message, each of them is read only where the cursor has looked ahead for the name and the
opening brace.

* `startsNested_iff` and `startsExtend_iff`: looking ahead finds what reading would.  The first
  tokens of the declaration can be read without a report (`BlockForm.head`);
* `BlockForm.run_of_head`: there, reading goes on behind the brace;
* `BlockForm.total_rest`: behind the brace no declaration is given up.  What stands there is read
  statement by statement, and every statement that fails is left out;
* `declarations_foretold` puts this together.
-/

namespace ProtoDecl.Schema.Parser

variable {α β σ : Type} {c d : Cursor}

/-! ## Parsers that never give up -/

namespace Total

theorem take : Total Parser.take :=
  fun c => ⟨c.current, c.advance, rfl⟩

theorem accept (k : Kind) : Total (Parser.accept k) := by
  intro c
  by_cases hk : c.current.kind = k
  · exact ⟨_, _, yields_accept.2 (.inl ⟨hk, rfl, rfl⟩)⟩
  · exact ⟨_, _, yields_accept.2 (.inr ⟨hk, rfl, rfl⟩)⟩

theorem moving {p : Parser α} (h : Total p) : Total (Parser.moving p) := by
  intro c
  obtain ⟨a, d, ha⟩ := h c
  exact ⟨_, _, yields_moving.2 ⟨ha, rfl⟩⟩

/-- Adding what was tried to a tree. -/
theorem add (p : Parser α) (k : Option α → β) :
    Total (Parser.attempt p >>= fun o => Pure.pure (k o)) :=
  .bind (.attempt p) fun _ => .pure _

theorem block {statement : σ → Parser σ} (h : ∀ s, Total (statement s)) (closing : String) (s : σ) :
    Total (Parser.block closing statement s) := by
  refine .loop (fun s => .bind (.ask _) fun k => ?_) s
  split
  · exact .bind .skip fun _ => .pure _
  · exact .bind (.report _) fun _ => .pure _
  · exact .bind .skip fun _ => .pure _
  · exact .bind (h s) fun _ => .pure _

end Total

/-! ### Lists of numbers -/

theorem total_numberOrRange : Total numberOrRange := by
  refine .bind .take fun t => .bind (.accept _) fun o => ?_
  split
  · exact .pure _
  · refine .bind (.ask _) fun k => ?_
    split
    · exact .bind .take fun _ => .bind (.ask _) fun _ => .pure _
    · exact .bind .take fun _ => .bind (.ask _) fun _ => .pure _
    · exact .bind (.report _) fun _ => .pure _

/-- A list is read to its end if its items and options are. -/
theorem total_listItems {form : ListForm σ} (hitem : ∀ s, Total (form.item s))
    (hoptions : ∀ options ∈ form.options?, ∀ s, Total (options s)) (s : Bool × σ) :
    Total (listItems form s) := by
  refine .loop (fun s => ?_) s
  obtain ⟨wanted, s⟩ := s
  refine .bind (.ask _) fun here => ?_
  split
  · dsimp only
    split
    · exact .bind (.report _) fun _ => .bind .skip fun _ => .pure _
    · exact .bind .skip fun _ => .pure _
  · split
    · exact .bind (.report _) fun _ => .pure _
    · split
      · split
        · exact .bind (hitem s) fun _ => .pure _
        · exact .bind (.report _) fun _ => .bind .skip fun _ => .pure _
      · split
        · exact .bind .skip fun _ => .pure _
        · split
          · rename_i options hform _ _ _
            exact .bind (hoptions options hform s) fun _ => .pure _
          · exact .bind (.report _) fun _ => .bind .skip fun _ => .pure _

theorem total_reservedItem (items : List ReservedItem) : Total (reservedItem items) := by
  refine .bind (.ask _) fun k => ?_
  split
  · exact .bind .take fun _ => .pure _
  · refine .bind total_numberOrRange fun item => ?_
    split <;> exact .pure _

theorem total_reserved : Total reserved :=
  .bind .take fun _ => .bind (total_listItems total_reservedItem nofun _) fun _ =>
    .bind (.ask _) fun _ => .pure _

theorem total_optionSeparator : Total optionSeparator := by
  refine .bind (.accept _) fun o => ?_
  split
  · refine .bind (.ask _) fun k => ?_
    split
    case h_5 => exact .bind (.report _) fun _ => .skip
    all_goals exact .pure _
  · exact .pure _

theorem total_optionList : Total optionList := by
  refine .bind .skip fun _ => .loop (fun options => .bind (.ask _) fun k => ?_) _
  split
  case h_1 => exact .bind .skip fun _ => .pure _
  case h_5 =>
    refine .bind (.moving (.attempt _)) fun o => ?_
    obtain ⟨option?, moved⟩ := o
    dsimp only
    split
    · exact .bind total_optionSeparator fun _ => .pure _
    · exact .pure _
  all_goals exact .bind (.report _) fun _ => .pure _

theorem total_extensionList : Total extensionList := by
  refine .bind .take fun t => .bind (total_listItems (fun lists => ?_) ?_ _) fun _ =>
    .bind (.ask _) fun _ => .pure _
  · refine .bind total_numberOrRange fun item => ?_
    split <;> exact .pure _
  · rintro options hoptions lists
    obtain rfl : extensionOptions = options := Option.some.inj hoptions
    exact .bind total_optionList fun _ => .pure _

/-! ### Statements -/

theorem total_enumStatement (decl : EnumDecl) : Total (enumStatement decl) := by
  refine .bind (.ask _) fun k => ?_
  split
  · exact .add _ _
  · refine .bind (.ask _) fun b => ?_
    split
    · exact .bind total_reserved fun _ => .pure _
    · exact .add _ _

theorem total_oneofStatement (decl : Oneof) : Total (oneofStatement decl) := by
  refine .bind (.ask _) fun k => ?_
  split <;> exact .add _ _

theorem total_messageStatement (inner : Parser Message) (decl : Message) :
    Total (messageStatement inner decl) := by
  refine .bind (.ask _) fun s => ?_
  cases s with
  | extensions => exact .bind total_extensionList fun _ => .pure _
  | reserved => exact .bind total_reserved fun _ => .pure _
  | message | enum | oneof | extend | option | field => exact .add _ _

/-! ## Declarations with a body -/

theorem run_bind_of_yields {p : Parser α} {f : α → Parser β} {a : α} (h : p.Yields c a d) :
    (p >>= f).run c = (f a).run d := by
  rw [run_bind, h]

/-- What distinguishes one sort of declaration with a body from another. -/
structure BlockForm (σ : Type) where
  /-- Reads the name. -/
  name : Parser Name
  /-- Where the opening brace is wanted. -/
  opening : String
  /-- Where the closing brace is wanted. -/
  closing : Name → String
  /-- Reads a statement. -/
  statement : σ → Parser σ
  /-- The declaration without content. -/
  empty : Name → Span → σ
  /-- The declaration with its span. -/
  spanned : σ → Span → σ

namespace BlockForm

/-- The keyword, the name and the opening brace. -/
def head (form : BlockForm σ) : Parser Name := do
  skip
  let n ← form.name
  let _ ← expect (.symbol .openBrace) form.opening
  return n

/-- What follows the opening brace of a declaration that began at `start`. -/
def rest (form : BlockForm σ) (start : Span) (n : Name) : Parser σ := do
  let decl ← block (form.closing n) form.statement (form.empty n start)
  return form.spanned decl (← spanFrom start)

/-- A declaration, with the cursor on its keyword. -/
def parser (form : BlockForm σ) : Parser σ := do
  let start := (← take).span
  let n ← form.name
  let decl ← body form.opening (form.closing n) form.statement (form.empty n start)
  return form.spanned decl (← spanFrom start)

variable {form : BlockForm σ} {n : Name}

theorem reads_head : form.head.Reads c n d ↔
    ∃ e, form.name.Reads c.advance n e ∧ e.current.kind = .symbol .openBrace ∧ d = e.advance := by
  rw [head, reads_skip_bind, reads_bind]
  constructor
  · rintro ⟨m, e, hm, hread⟩
    obtain ⟨t, ht, rfl⟩ := reads_bind_pure.1 hread
    obtain ⟨hk, -, rfl⟩ := reads_expectAs.1 ht
    exact ⟨e, hm, hk, rfl⟩
  · rintro ⟨e, hn, hk, rfl⟩
    exact ⟨n, e, hn, reads_bind_pure.2 ⟨_, reads_expectAs.2 ⟨hk, rfl, rfl⟩, rfl⟩⟩

/-- Where the head of a declaration can be read, the declaration is read on behind it. -/
theorem run_of_head (h : form.head.Reads c n d) :
    form.parser.run c = (form.rest c.current.span n).run d := by
  obtain ⟨e, hname, hk, rfl⟩ := reads_head.1 h
  have hbrace : (expect (.symbol .openBrace) form.opening).Reads e e.current e.advance :=
    reads_expectAs.2 ⟨hk, rfl, rfl⟩
  have hbody (statement : σ → Parser σ) (decl : σ) :
      (body form.opening (form.closing n) statement decl).run e =
        (block (form.closing n) statement decl).run e.advance :=
    run_bind_of_yields (reads_attempt.2 ⟨_, rfl, hbrace⟩).1
  refine (run_bind_of_yields (yields_take.2 ⟨rfl, rfl⟩)).trans ?_
  refine (run_bind_of_yields hname.1).trans ?_
  rw [rest, run_bind, run_bind, hbody]

/-- A declaration that is read without reports has a head. -/
theorem head_of_reads {a : σ} (h : form.parser.Reads c a d) : ∃ n e, form.head.Reads c n e := by
  obtain ⟨n, e, hn, hread⟩ := reads_bind.1 (reads_take_bind.1 h)
  obtain ⟨decl, e', hbody, -⟩ := reads_bind.1 hread
  obtain ⟨o, e'', ho, -⟩ := reads_bind.1 hbody
  obtain ⟨t, -, ht⟩ := reads_attempt.1 ho
  obtain ⟨hk, -, -⟩ := reads_expectAs.1 ht
  exact ⟨n, e.advance, reads_head.2 ⟨e, hn, hk, rfl⟩⟩

theorem total_rest (h : ∀ s, Total (form.statement s)) (start : Span) (n : Name) :
    Total (form.rest start n) :=
  .bind (.block h _ _) fun _ => .bind (.ask _) fun _ => .pure _

end BlockForm

/-- Messages. -/
def messageForm : BlockForm Message where
  name := name "message name"
  opening := "after message name"
  closing n := closingOf "message" n.text
  statement := messageStatement message
  empty := emptyMessage
  spanned decl span := { decl with span }

/-- Enums. -/
def enumForm : BlockForm EnumDecl where
  name := name "enum name"
  opening := "after enum name"
  closing n := closingOf "enum" n.text
  statement := enumStatement
  empty n span := ⟨n, [], [], [], span⟩
  spanned decl span := { decl with span }

/-- Groups of alternatives. -/
def oneofForm : BlockForm Oneof where
  name := name "oneof name"
  opening := "after oneof name"
  closing n := closingOf "oneof" n.text
  statement := oneofStatement
  empty n span := ⟨n, [], [], span⟩
  spanned decl span := { decl with span }

/-- Blocks that extend a message. -/
def extendForm : BlockForm Extend where
  name := typeName "extended type name"
  opening := "after extended type name"
  closing n := closingOf "extend block for" n.text
  statement := extendStatement
  empty n span := ⟨n, [], span⟩
  spanned decl span := { decl with span }

theorem run_message (c : Cursor) : message.run c = messageForm.parser.run c :=
  recursive_eq_step messageWith_local _ c

/-! ## Looking ahead -/

theorem startsNested_iff {form : BlockForm σ} {subject : String} (hname : form.name = name subject)
    {k : Keyword} (hk : c.current.kind = .keyword k) :
    c.startsNested = true ↔ ∃ n d, form.head.Reads c n d := by
  have hview := Cursor.view_eq_cons (c := c) (by simp [hk])
  have hone : (c.peek 1).kind = c.advance.current.kind := by
    rw [peek_one_kind hview, Cursor.current_kind]
  rw [Cursor.startsNested, Bool.and_eq_true, beq_iff_eq, hone]
  simp only [BlockForm.reads_head, hname, reads_name]
  -- Only where the first token is a name does the second one follow it in the view.
  have htwo (hn : c.advance.current.kind.isName = true) :
      (c.peek 2).kind = c.advance.advance.current.kind := by
    rw [Cursor.view_eq_cons (ne_endOfFile_of_isName hn)] at hview
    rw [peek_two_kind hview, Cursor.current_kind]
  constructor
  · rintro ⟨hn, hbrace⟩
    rw [htwo hn] at hbrace
    exact ⟨_, _, c.advance.advance, ⟨hn, rfl, rfl⟩, hbrace, rfl⟩
  · rintro ⟨_, _, _, ⟨hn, -, rfl⟩, hbrace, -⟩
    rw [htwo hn]
    exact ⟨hn, hbrace⟩

theorem name_singleton {t : Token} (ht : t.kind.isName = true) :
    Grammar.name [t] ⟨t.value, nowhere⟩ :=
  ⟨[t], [], _, rfl, ⟨t, rfl, ht, rfl⟩, rfl, rfl⟩

/-- Names divided by dots and an opening brace are a name, further segments and the brace. -/
theorem namesThenBrace_cases {w : List Token} (h : Cursor.namesThenBrace w = true) :
    ∃ t u names x v, w = t :: (u ++ x :: v) ∧ t.kind.isName = true ∧
      Grammar.segment.many u names ∧ x.kind = .symbol .openBrace := by
  fun_induction Cursor.namesThenBrace w with
  | case1 t next w ih =>
    simp only [Bool.and_eq_true, Bool.or_eq_true, beq_iff_eq] at h
    obtain ⟨ht, hbrace | ⟨hdot, hrest⟩⟩ := h
    · exact ⟨t, [], [], next, w, rfl, ht, .nil, hbrace⟩
    · obtain ⟨t', u, names, x, v, rfl, ht', hu, hx⟩ := ih hrest
      have hsegment : Grammar.segment [next, t'] ⟨t'.value, nowhere⟩ :=
        ⟨[next], [t'], _, rfl, ⟨next, rfl, hdot, rfl⟩, name_singleton ht'⟩
      exact ⟨t, next :: t' :: u, _, x, v, rfl, ht, .cons hsegment hu, hx⟩
  | case2 => exact absurd h Bool.false_ne_true

/-- Where looking ahead finds an opening brace, the name of a type stands before it. -/
theorem typeThenBrace_iff {w : List Token} :
    Cursor.typeThenBrace w = true ↔
      ∃ u n x v, w = u ++ x :: v ∧ Grammar.typeName u n ∧ x.kind = .symbol .openBrace := by
  constructor
  · intro h
    cases w with
    | nil => exact absurd h Bool.false_ne_true
    | cons y w =>
      rw [Cursor.typeThenBrace] at h
      split at h
      · rename_i hy
        obtain ⟨t, u, names, x, v, rfl, ht, hu, hx⟩ := namesThenBrace_cases h
        exact ⟨y :: t :: u, _, x, v, rfl, .inr ⟨[y], t :: u, _, rfl, ⟨y, rfl, beq_iff_eq.1 hy, rfl⟩,
          [t], u, _, rfl, name_singleton ht, u, [], _, by simp, ⟨names, hu, rfl⟩, rfl, rfl⟩, hx⟩
      · obtain ⟨t, u, names, x, v, heq, ht, hu, hx⟩ := namesThenBrace_cases h
        exact ⟨t :: u, _, x, v, heq, .inl ⟨[t], u, _, rfl, name_singleton ht, u, [], _, by simp,
          ⟨names, hu, rfl⟩, rfl, rfl⟩, hx⟩
  · rintro ⟨u, n, x, v, rfl, hn, hx⟩
    exact typeThenBrace_append hn hx

theorem startsExtend_iff (hk : c.current.kind = .keyword .extend) :
    c.startsExtend = true ↔ ∃ n d, extendForm.head.Reads c n d := by
  have hview := Cursor.view_eq_cons (c := c) (by simp [hk])
  rw [Cursor.startsExtend_eq hview, typeThenBrace_iff]
  simp only [BlockForm.reads_head]
  constructor
  · rintro ⟨u, n, x, v, hrest, hn, hx⟩
    have hnext : notDot (nextKind (x :: v)) := by
      rw [nextKind_cons, hx]
      exact nofun
    obtain ⟨n', e, hread, hview, -⟩ :=
      (parses_typeName "extended type name").complete hn hrest hnext
    exact ⟨n', _, e, hread, by rw [Cursor.current_of_view hview, hx], rfl⟩
  · rintro ⟨n, _, e, hread, hbrace, -⟩
    obtain ⟨u, hu, hn⟩ := (parses_typeName "extended type name").sound hread
    have hview' := Cursor.view_eq_cons (c := e) (by simp [hbrace])
    exact ⟨u, _, e.current, e.advance.view, by rw [hu, ← hview'], hn, hbrace⟩

/-! ## Declarations in messages -/

/-- A look ahead that tells whether a declaration is there. -/
structure Foretells (looks : Cursor → Bool) (p : Parser σ) (form : BlockForm σ) (c : Cursor) :
    Prop where
  /-- It says yes just where keyword, name and opening brace can be read without a report. -/
  agrees : looks c = true ↔ ∃ n d, form.head.Reads c n d
  /-- There, the declaration is read on from behind the brace. -/
  behind : ∀ n d, form.head.Reads c n d → p.run c = (form.rest c.current.span n).run d
  /-- Elsewhere, reading a declaration reports something. -/
  reported : looks c = false → (p.run c).2.errors ≠ c.errors
  /-- Where it says yes, the declaration is not given up. -/
  yields : looks c = true → ∃ a d, p.Yields c a d

theorem Foretells.of_form {form : BlockForm σ} {p : Parser σ} {looks : Cursor → Bool}
    (hp : p.run c = form.parser.run c) (hstatement : ∀ s, Total (form.statement s))
    (hagrees : looks c = true ↔ ∃ n d, form.head.Reads c n d) : Foretells looks p form c where
  agrees := hagrees
  behind n d h := hp.trans (BlockForm.run_of_head h)
  reported hlooks heq := by
    rw [hp] at heq
    obtain ⟨a, hread⟩ := reads_of_errors_eq form.parser heq
    exact Bool.false_ne_true (hlooks.symm.trans (hagrees.2 (BlockForm.head_of_reads hread)))
  yields hlooks := by
    obtain ⟨n, d, hhead⟩ := hagrees.1 hlooks
    obtain ⟨a, e, hrest⟩ := BlockForm.total_rest hstatement c.current.span n d
    exact ⟨a, e, (hp.trans (BlockForm.run_of_head hhead)).trans hrest⟩

theorem message_foretold (hk : c.current.kind = .keyword .message) :
    Foretells Cursor.startsNested message messageForm c :=
  .of_form (run_message c) (total_messageStatement message) (startsNested_iff rfl hk)

theorem enum_foretold (hk : c.current.kind = .keyword .enum) :
    Foretells Cursor.startsNested enumDecl enumForm c :=
  .of_form rfl total_enumStatement (startsNested_iff rfl hk)

theorem oneof_foretold (hk : c.current.kind = .keyword .oneof) :
    Foretells Cursor.startsNested oneof oneofForm c :=
  .of_form rfl total_oneofStatement (startsNested_iff rfl hk)

theorem extend_foretold (hk : c.current.kind = .keyword .extend) :
    Foretells Cursor.startsExtend extend extendForm c :=
  .of_form rfl (fun _ => .add _ _) (startsExtend_iff hk)

/-- What has been looked for where a statement is taken for a declaration. -/
def looked : MessageStatement → Cursor → Bool
  | .message | .enum | .oneof => Cursor.startsNested
  | .extend => Cursor.startsExtend
  | _ => fun _ => true

theorem looked_classify (c : Cursor) : looked (classify c) c = true := by
  rw [classify]
  split <;> (try split) <;> simp_all [looked]

theorem yields_add {p : Parser α} {a : α} (h : p.Yields c a d) (k : Option α → β) :
    (attempt p >>= fun o => pure (k o)).Yields c (k (some a)) d := by
  have hattempt : (attempt p).Yields c (some a) d := yields_attempt.2 (by rw [h]; exact ⟨rfl, rfl⟩)
  exact yields_bind.2 ⟨_, _, hattempt, yields_pure.2 ⟨rfl, rfl⟩⟩

/-- Looking ahead agrees with reading, at every cursor.  So in a message, a statement that is taken
for a declaration with a body is always read as one and added to the message. -/
theorem declarations_foretold (c : Cursor) :
    (c.current.kind = .keyword .extend → Foretells Cursor.startsExtend extend extendForm c) ∧
    (c.current.kind = .keyword .message → Foretells Cursor.startsNested message messageForm c) ∧
    (c.current.kind = .keyword .enum → Foretells Cursor.startsNested enumDecl enumForm c) ∧
    (c.current.kind = .keyword .oneof → Foretells Cursor.startsNested oneof oneofForm c) ∧
    ∀ decl : Message,
      (classify c = .extend → ∃ e d, extend.Yields c e d ∧ (messageStatement message decl).Yields c
        { decl with extendBlocks := decl.extendBlocks ++ [e] } d) ∧
      (classify c = .message → ∃ m d, message.Yields c m d ∧
        (messageStatement message decl).Yields c { decl with messages := decl.messages ++ [m] } d) ∧
      (classify c = .enum → ∃ e d, enumDecl.Yields c e d ∧
        (messageStatement message decl).Yields c { decl with enums := decl.enums ++ [e] } d) ∧
      (classify c = .oneof → ∃ o d, oneof.Yields c o d ∧
        (messageStatement message decl).Yields c { decl with oneofs := decl.oneofs ++ [o] } d) := by
  refine ⟨extend_foretold, message_foretold, enum_foretold, oneof_foretold, fun decl => ?_⟩
  -- A statement is classified by its keyword and what was looked for behind it.
  have hopens := opens_classify c
  have hlooked := looked_classify c
  have hclassify : (ask classify).Yields c (classify c) c := yields_ask.2 ⟨rfl, rfl⟩
  refine ⟨fun hs => ?_, fun hs => ?_, fun hs => ?_, fun hs => ?_⟩
  all_goals rw [hs] at hopens hlooked hclassify
  · obtain ⟨e, d, he⟩ := (extend_foretold hopens).yields hlooked
    exact ⟨e, d, he, yields_bind.2 ⟨_, _, hclassify, yields_add he _⟩⟩
  · obtain ⟨m, d, hm⟩ := (message_foretold hopens).yields hlooked
    exact ⟨m, d, hm, yields_bind.2 ⟨_, _, hclassify, yields_add hm _⟩⟩
  · obtain ⟨e, d, he⟩ := (enum_foretold hopens).yields hlooked
    exact ⟨e, d, he, yields_bind.2 ⟨_, _, hclassify, yields_add he _⟩⟩
  · obtain ⟨o, d, ho⟩ := (oneof_foretold hopens).yields hlooked
    exact ⟨o, d, ho, yields_bind.2 ⟨_, _, hclassify, yields_add ho _⟩⟩

/-- Nothing stands behind the opening brace, and there is a comment in the name of the extended
type. -/
theorem declarations_foretold_unclosed :
    let here : Span := ⟨1, 1, 0, 0⟩
    let brace : Token := ⟨.symbol .openBrace, "\x7b", here⟩
    let extending := Cursor.ofTokens [⟨.keyword .extend, "extend", here⟩, ⟨.symbol .dot, ".", here⟩,
      ⟨.keyword .message, "message", here⟩, ⟨.comment, "//", here⟩, ⟨.symbol .dot, ".", here⟩,
      ⟨.identifier, "A", here⟩, brace]
    let nested (k : Keyword) := Cursor.ofTokens [⟨.keyword k, "", here⟩,
      ⟨.identifier, "A", here⟩, brace]
    (extending.current.kind = .keyword .extend ∧
      Foretells Cursor.startsExtend extend extendForm extending ∧
      classify extending = .extend ∧ ∃ e d, extend.Yields extending e d) ∧
    ((nested .message).current.kind = .keyword .message ∧
      Foretells Cursor.startsNested message messageForm (nested .message) ∧
      classify (nested .message) = .message ∧ ∃ m d, message.Yields (nested .message) m d) ∧
    ((nested .enum).current.kind = .keyword .enum ∧
      Foretells Cursor.startsNested enumDecl enumForm (nested .enum) ∧
      classify (nested .enum) = .enum ∧ ∃ e d, enumDecl.Yields (nested .enum) e d) ∧
    ((nested .oneof).current.kind = .keyword .oneof ∧
      Foretells Cursor.startsNested oneof oneofForm (nested .oneof) ∧
      classify (nested .oneof) = .oneof ∧ ∃ o d, oneof.Yields (nested .oneof) o d) := by
  intro here brace extending nested
  have decl : Message := emptyMessage ⟨"", here⟩ here
  obtain ⟨hextend, -, -, -, hextends⟩ := declarations_foretold extending
  obtain ⟨-, hmessage, -, -, hmessages⟩ := declarations_foretold (nested .message)
  obtain ⟨-, -, henum, -, henums⟩ := declarations_foretold (nested .enum)
  obtain ⟨-, -, -, honeof, honeofs⟩ := declarations_foretold (nested .oneof)
  obtain ⟨x, dx, hx, -⟩ := (hextends decl).1 rfl
  obtain ⟨m, dm, hm, -⟩ := (hmessages decl).2.1 rfl
  obtain ⟨e, de, he, -⟩ := (henums decl).2.2.1 rfl
  obtain ⟨o, od, ho, -⟩ := (honeofs decl).2.2.2 rfl
  exact ⟨⟨rfl, hextend rfl, rfl, x, dx, hx⟩, ⟨rfl, hmessage rfl, rfl, m, dm, hm⟩,
    ⟨rfl, henum rfl, rfl, e, de, he⟩, ⟨rfl, honeof rfl, rfl, o, od, ho⟩⟩

end ProtoDecl.Schema.Parser
