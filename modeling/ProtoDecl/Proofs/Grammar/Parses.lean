import ProtoDecl.Proofs.Grammar.Rule
import ProtoDecl.Proofs.Reading.Recursion

/-!
# Parsers of a rule

A parser parses a rule if its readings without reports are the derivations of the rule.

* Sound: what it has read is a word of the rule, and what it yields is the tree of that word.
* Complete: where a word of the rule stands, and something that may follow it, the parser reads that
  word and yields its tree.

The parser is compared with the rule at one cursor (`ParsesAt`), because some parsers are only
called where the next token is known.  What may follow is a condition on the kind of the token
behind the word: most parsers read on as long as they can, so a dotted name cannot be followed by a
dot.

Each way of building parsers goes with one of building rules.  Looking at the cursor and spans have
no counterpart in rules.
-/

namespace ProtoDecl.Schema

variable {α β : Type} {c d : Cursor}

theorem Cursor.current_kind (c : Cursor) : c.current.kind = nextKind c.view := by
  rw [current_eq]
  cases c.view with
  | nil => exact eof_kind c
  | cons t w => rfl

theorem Cursor.view_eq_cons (h : c.current.kind ≠ .endOfFile) :
    c.view = c.current :: c.advance.view := by
  rw [current_kind] at h
  rw [view_advance, current_eq]
  cases hview : c.view with
  | nil => simp [hview] at h
  | cons t w => rfl

theorem Cursor.advance_of_view_cons {t : Token} {w : List Token} (h : c.view = t :: w) :
    c.current = t ∧ c.advance.view = w := by
  refine ⟨current_of_view h, ?_⟩
  rw [view_advance, h, List.tail_cons]

/-- A word that stands at a cursor says of which kind the next token is. -/
theorem current_kind_of_begins {r : Rule α} {P : Kind → Prop} (hr : r.Begins P)
    {w rest : List Token} {a : α} (hw : r w a) (hview : c.view = w ++ rest) :
    P c.current.kind := by
  obtain ⟨t, v, rfl, ht⟩ := hr w a hw
  rw [Cursor.current_kind, hview]
  exact ht

namespace Parser

variable [Seen α] [Seen β]

/-- Anything may follow. -/
def anything (_ : Kind) : Prop :=
  True

/-- At `c`, the readings of `p` without reports are the derivations of `r`, where what follows
satisfies `F`. -/
structure ParsesAt (F : Kind → Prop) (c : Cursor) (p : Parser α) (r : Rule α) : Prop where
  sound : ∀ {a d}, p.Reads c a d → ∃ w, c.view = w ++ d.view ∧ r w (bare a)
  complete : ∀ {w b rest}, r w b → c.view = w ++ rest → F (nextKind rest) →
    ∃ a d, p.Reads c a d ∧ d.view = rest ∧ bare a = b

namespace ParsesAt

variable {F G : Kind → Prop} {p : Parser α} {r s : Rule α}

theorem follow (h : ParsesAt F c p r) (hGF : ∀ k, G k → F k) : ParsesAt G c p r :=
  ⟨h.sound, fun hr hview hG => h.complete hr hview (hGF _ hG)⟩

theorem of_iff (h : ParsesAt F c p r) (hrs : ∀ w a, r w a ↔ s w a) : ParsesAt F c p s :=
  ⟨fun hread => (h.sound hread).imp fun _ hw => ⟨hw.1, (hrs _ _).1 hw.2⟩,
    fun hs => h.complete ((hrs _ _).2 hs)⟩

/-! ## Sequences -/

theorem pure {a b : α} (h : bare a = b) : ParsesAt F c (Pure.pure a) (Pure.pure b) where
  sound hread := by
    obtain ⟨rfl, rfl⟩ := reads_pure.1 hread
    exact ⟨[], rfl, rfl, h⟩
  complete := by
    rintro w b' rest ⟨rfl, rfl⟩ hview -
    exact ⟨a, c, reads_pure.2 ⟨rfl, rfl⟩, hview, h⟩

theorem bind {f : α → Parser β} {g : α → Rule β} (hp : ParsesAt F c p r)
    (hg : ∀ a, (g a).Offers G F)
    (hf : ∀ a c', p.Reads c a c' → ParsesAt G c' (f a) (g (bare a))) :
    ParsesAt G c (p >>= f) (r >>= g) where
  sound hread := by
    obtain ⟨a, c', ha, hb⟩ := reads_bind.1 hread
    obtain ⟨u, hu, hru⟩ := hp.sound ha
    obtain ⟨v, hv, hgv⟩ := (hf a c' ha).sound hb
    exact ⟨u ++ v, by rw [hu, hv, List.append_assoc], u, v, _, rfl, hru, hgv⟩
  complete := by
    rintro w b rest ⟨u, v, a', rfl, hru, hgv⟩ hview hG
    rw [List.append_assoc] at hview
    obtain ⟨a, c', ha, hc', rfl⟩ := hp.complete hru hview (hg a' v b rest hgv hG)
    obtain ⟨b', d, hb, hd, rfl⟩ := (hf a c' ha).complete hgv hc' hG
    exact ⟨b', d, reads_bind.2 ⟨a, c', ha, hb⟩, hd, rfl⟩

/-- The first parser does not mind what follows. -/
theorem seq {f : α → Parser β} {g : α → Rule β} (hp : ParsesAt anything c p r)
    (hf : ∀ a c', p.Reads c a c' → ParsesAt G c' (f a) (g (bare a))) :
    ParsesAt G c (p >>= f) (r >>= g) :=
  hp.bind (fun _ _ _ _ _ _ => trivial) hf

/-- The same words for other trees. -/
theorem map {f : α → Parser β} {g : α → β} (hp : ParsesAt F c p r)
    (hf : ∀ a c', p.Reads c a c' → ParsesAt F c' (f a) (Pure.pure (g (bare a)))) :
    ParsesAt F c (p >>= f) (g <$> r) := by
  rw [← Rule.bind_pure]
  exact hp.bind (fun _ => Rule.offers_pure _ fun _ => id) hf

/-- Trying is reading, where nothing is reported. -/
theorem attempt {f : Option α → Parser β} {g : α → Rule β} (hp : ParsesAt F c p r)
    (hg : ∀ a, (g a).Offers G F)
    (hf : ∀ a c', p.Reads c a c' → ParsesAt G c' (f (some a)) (g (bare a))) :
    ParsesAt G c (Parser.attempt p >>= f) (r >>= g) where
  sound hread := by
    obtain ⟨o, c', ho, hb⟩ := reads_bind.1 hread
    obtain ⟨a, rfl, ha⟩ := reads_attempt.1 ho
    exact (hp.bind hg hf).sound (reads_bind.2 ⟨a, c', ha, hb⟩)
  complete hr hview hG := by
    obtain ⟨b, d, hread, hd⟩ := (hp.bind hg hf).complete hr hview hG
    obtain ⟨a, c', ha, hb⟩ := reads_bind.1 hread
    exact ⟨b, d, reads_bind.2 ⟨some a, c', reads_attempt.2 ⟨a, rfl, ha⟩, hb⟩, hd⟩

/-- Adding what was read to a tree. -/
theorem add {k : Option α → β} {f : α → β} (hp : ParsesAt F c p r)
    (hk : ∀ a, bare (k (some a)) = f (bare a)) :
    ParsesAt F c (Parser.attempt p >>= fun o => Pure.pure (k o)) (f <$> r) := by
  rw [← Rule.bind_pure]
  exact hp.attempt (fun _ => Rule.offers_pure _ fun _ => id) fun a _ _ => pure (hk a)

/-- A parser that always reports goes with a rule without words. -/
theorem never (hp : ∀ a d, ¬p.Reads c a d) (hr : ∀ w a, ¬r w a) : ParsesAt F c p r :=
  ⟨fun hread => absurd hread (hp _ _), fun hw => absurd hw (hr _ _)⟩

/-! ## Looking -/

theorem ask {γ : Type} {g : Cursor → γ} {f : γ → Parser α} (h : ParsesAt F c (f (g c)) r) :
    ParsesAt F c (Parser.ask g >>= f) r where
  sound hread := h.sound (reads_ask_bind.1 hread)
  complete hr hview hF := by
    obtain ⟨b, d, hb, hd⟩ := h.complete hr hview hF
    exact ⟨b, d, reads_ask_bind.2 hb, hd⟩

theorem current {f : Token → Parser α} (h : ParsesAt F c (f c.current) r) :
    ParsesAt F c (Parser.current >>= f) r :=
  ask h

theorem kind {f : Kind → Parser α} (h : ParsesAt F c (f c.current.kind) r) :
    ParsesAt F c (Parser.kind >>= f) r :=
  ask h

/-- The end of a declaration: its span, and its tree. -/
theorem spanned {start : Span} {k : Span → α} {a : α} (h : bare (k (c.spanFrom start)) = a) :
    ParsesAt F c (spanFrom start >>= fun span => Pure.pure (k span)) (Pure.pure a) :=
  ask (pure h)

/-- The end of a declaration whose tree was built up along the way: it is the tree of the items, as
soon as it has its span. -/
theorem finish {ι : Type} {items : Rule ι} {f : ι → α} (hp : ParsesAt F c p (f <$> items))
    {start : Span} {k : α → Span → β} {g : ι → β}
    (hk : ∀ a i, bare a = f i → ∀ span, bare (k a span) = g i) :
    ParsesAt F c (p >>= fun a => spanFrom start >>= fun span => Pure.pure (k a span))
      (items >>= fun i => Pure.pure (g i)) := by
  rw [Rule.bind_pure]
  refine ⟨fun hread => ?_, ?_⟩
  · obtain ⟨a, c₁, ha, hread⟩ := reads_bind.1 hread
    obtain ⟨w, hw, i, hi, hf⟩ := hp.sound ha
    obtain ⟨span, c₂, hspan, hread⟩ := reads_bind.1 hread
    obtain ⟨-, rfl⟩ := reads_spanFrom.1 hspan
    obtain ⟨rfl, rfl⟩ := reads_pure.1 hread
    exact ⟨w, hw, i, hi, hk a i hf _⟩
  · rintro w b rest ⟨i, hi, rfl⟩ hview hF
    obtain ⟨a, c₁, ha, hc₁, hf⟩ := hp.complete ⟨i, hi, rfl⟩ hview hF
    refine ⟨k a (c₁.spanFrom start), c₁, reads_bind.2 ⟨a, c₁, ha, ?_⟩, hc₁, hk a i hf _⟩
    exact reads_bind.2 ⟨_, c₁, reads_spanFrom.2 ⟨rfl, rfl⟩, reads_pure.2 ⟨rfl, rfl⟩⟩

/-- A choice that a test decides. -/
theorem ite {P : Prop} [Decidable P] {q : Parser α} (h : P → ParsesAt F c p r)
    (h' : ¬P → ParsesAt F c q s)
    (hr : ∀ w b rest, r w b → c.view = w ++ rest → F (nextKind rest) → P)
    (hs : ∀ w b rest, s w b → c.view = w ++ rest → F (nextKind rest) → ¬P) :
    ParsesAt F c (if P then p else q) (r <|> s) where
  sound hread := by
    split at hread
    · rename_i hP
      exact ((h hP).sound hread).imp fun _ hw => ⟨hw.1, .inl hw.2⟩
    · rename_i hP
      exact ((h' hP).sound hread).imp fun _ hw => ⟨hw.1, .inr hw.2⟩
  complete := by
    rintro w b rest (hw | hw) hview hF
    · have hP := hr w b rest hw hview hF
      rw [if_pos hP]
      exact (h hP).complete hw hview hF
    · have hP := hs w b rest hw hview hF
      rw [if_neg hP]
      exact (h' hP).complete hw hview hF

/-- A restriction on how words begin, where it is met. -/
theorem notAt {P : Kind → Prop} (h : ParsesAt F c p r) (hP : ¬P c.current.kind) :
    ParsesAt F c p (r.notAt P) where
  sound hread := by
    obtain ⟨w, hw, hr⟩ := h.sound hread
    refine ⟨w, hw, hr, fun t ht => ?_⟩
    obtain ⟨v, rfl⟩ := List.head?_eq_some_iff.1 ht
    rwa [← Cursor.current_of_view hw]
  complete hr := h.complete hr.1

/-! ## Tokens -/

/-- One token of a kind that is known, and what is read behind it. -/
theorem take {k : Kind} {f : Token → Parser β} {g : Token → Rule β} (hk : c.current.kind = k)
    (hend : k ≠ .endOfFile)
    (hf : ParsesAt G c.advance (f c.current) (g { c.current with span := nowhere })) :
    ParsesAt G c (Parser.take >>= f) (.token k >>= g) where
  sound hread := by
    obtain ⟨v, hv, hgv⟩ := hf.sound (reads_take_bind.1 hread)
    have hview := Cursor.view_eq_cons (hk ▸ hend)
    exact ⟨c.current :: v, by rw [hview, hv]; rfl, [c.current], v, _, rfl,
      ⟨c.current, rfl, hk, rfl⟩, hgv⟩
  complete := by
    rintro w b rest ⟨u, v, t, rfl, ⟨t', rfl, -, rfl⟩, hgv⟩ hview hG
    obtain ⟨rfl, hrest⟩ := Cursor.advance_of_view_cons hview
    obtain ⟨b', d, hb, hd⟩ := hf.complete hgv hrest hG
    exact ⟨b', d, reads_take_bind.2 hb, hd⟩

theorem taken {k : Kind} {f g : Token → α} (hk : c.current.kind = k) (hend : k ≠ .endOfFile)
    (hfg : bare (f c.current) = g { c.current with span := nowhere }) :
    ParsesAt F c (Parser.take >>= fun t => Pure.pure (f t)) (g <$> .token k) := by
  rw [← Rule.bind_pure]
  exact take hk hend (pure hfg)

/-- Passing over a token that is known. -/
theorem skip {k : Kind} {f : Unit → Parser β} {g : Token → Rule β} (hk : c.current.kind = k)
    (hend : k ≠ .endOfFile)
    (hf : ParsesAt G c.advance (f ()) (g { c.current with span := nowhere })) :
    ParsesAt G c (Parser.skip >>= f) (.token k >>= g) where
  sound hread :=
    (take (f := fun _ => f ()) hk hend hf).sound (reads_take_bind.2 (reads_skip_bind.1 hread))
  complete hr hview hG := by
    obtain ⟨b, d, hread, hd⟩ :=
      (take (f := fun _ => f ()) hk hend hf).complete hr hview hG
    exact ⟨b, d, reads_skip_bind.2 (reads_take_bind.1 hread), hd⟩

/-- A token that has to be there, and what is read behind it. -/
theorem expectAs {k : Kind} (hend : k ≠ .endOfFile) (wanted : Wanted) {f : Token → Parser β}
    {g : Token → Rule β}
    (hf : c.current.kind = k →
      ParsesAt G c.advance (f c.current) (g { c.current with span := nowhere })) :
    ParsesAt G c (Parser.expectAs k wanted >>= f) (.token k >>= g) where
  sound hread := by
    obtain ⟨t, c', ht, hb⟩ := reads_bind.1 hread
    obtain ⟨hk, rfl, rfl⟩ := reads_expectAs.1 ht
    exact (take hk hend (hf hk)).sound (reads_take_bind.2 hb)
  complete := by
    rintro w b rest hr hview hG
    have hk : c.current.kind = k := by
      obtain ⟨u, v, t, rfl, ⟨t', rfl, hk, rfl⟩, -⟩ := hr
      rwa [Cursor.current_kind, hview]
    obtain ⟨b', d, hread, hd⟩ := (take hk hend (hf hk)).complete hr hview hG
    have hb := reads_take_bind.1 hread
    exact ⟨b', d, reads_bind.2 ⟨_, _, reads_expectAs.2 ⟨hk, rfl, rfl⟩, hb⟩, hd⟩

theorem expect {k : Kind} (hend : k ≠ .endOfFile) (point : String) {f : Token → Parser β}
    {g : Token → Rule β}
    (hf : ParsesAt G c.advance (f c.current) (g { c.current with span := nowhere })) :
    ParsesAt G c (Parser.expect k point >>= f) (.token k >>= g) :=
  expectAs hend _ fun _ => hf

/-- The token at the end of a declaration, whose absence would be tolerated. -/
theorem close {k : Kind} (hend : k ≠ .endOfFile) {wanted : Wanted} {f : Unit → Parser β}
    {g : Token → Rule β}
    (hf : ParsesAt G c.advance (f ()) (g { c.current with span := nowhere })) :
    ParsesAt G c (tolerate (Parser.expectAs k wanted) >>= f) (.token k >>= g) where
  sound hread := by
    obtain ⟨u, c', hu, hb⟩ := reads_bind.1 hread
    obtain ⟨t, ht⟩ := reads_tolerate.1 hu
    exact (expectAs (f := fun _ => f ()) hend wanted fun _ => hf).sound
      (reads_bind.2 ⟨t, c', ht, hb⟩)
  complete hr hview hG := by
    obtain ⟨b, d, hread, hd⟩ :=
      (expectAs (f := fun _ => f ()) hend wanted fun _ => hf).complete hr hview hG
    obtain ⟨t, c', ht, hb⟩ := reads_bind.1 hread
    exact ⟨b, d, reads_bind.2 ⟨(), c', reads_tolerate.2 ⟨t, ht⟩, hb⟩, hd⟩

/-- A token that may be there, and what is read with and without it. -/
theorem accept {k : Kind} (hend : k ≠ .endOfFile) {f : Option Token → Parser β}
    {g : Token → Rule β} {s : Rule β}
    (hsome : c.current.kind = k →
      ParsesAt G c.advance (f (some c.current)) (g { c.current with span := nowhere }))
    (hnone : c.current.kind ≠ k → ParsesAt G c (f none) s) (hs : s.Offers G (· ≠ k)) :
    ParsesAt G c (Parser.accept k >>= f) (s <|> .token k >>= g) where
  sound hread := by
    obtain ⟨o, c', ho, hb⟩ := reads_bind.1 hread
    rcases reads_accept.1 ho with ⟨hk, rfl, rfl⟩ | ⟨hk, rfl, rfl⟩
    · obtain ⟨v, hv, hgv⟩ := (hsome hk).sound hb
      have hview := Cursor.view_eq_cons (hk ▸ hend)
      exact ⟨c.current :: v, by rw [hview, hv]; rfl, .inr ⟨[c.current], v, _, rfl,
        ⟨c.current, rfl, hk, rfl⟩, hgv⟩⟩
    · obtain ⟨w, hw, hsw⟩ := (hnone hk).sound hb
      exact ⟨w, hw, .inl hsw⟩
  complete := by
    rintro w b rest (hw | ⟨u, v, t, rfl, ⟨t', rfl, hk, rfl⟩, hgv⟩) hview hG
    · have hk : c.current.kind ≠ k := by
        rw [Cursor.current_kind, hview]
        exact hs w b rest hw hG
      obtain ⟨b', d, hb, hd⟩ := (hnone hk).complete hw hview hG
      exact ⟨b', d, reads_bind.2 ⟨none, c, reads_accept.2 (.inr ⟨hk, rfl, rfl⟩), hb⟩, hd⟩
    · obtain ⟨rfl, hrest⟩ := Cursor.advance_of_view_cons hview
      obtain ⟨b', d, hb, hd⟩ := (hsome hk).complete hgv hrest hG
      exact ⟨b', d, reads_bind.2 ⟨_, _, reads_accept.2 (.inl ⟨hk, rfl, rfl⟩), hb⟩, hd⟩

/-! ## Repetition -/

/-- A word that is not empty is progress. -/
theorem progress (h : ParsesAt F c p r) {P : Kind → Prop} (hr : r.Begins P) {a : α}
    (hread : p.Reads c a d) : d.remaining < c.remaining := by
  obtain ⟨w, hw, hrw⟩ := h.sound hread
  obtain ⟨t, v, rfl, -⟩ := hr w _ hrw
  refine hread.leads.remaining_lt ?_
  rw [hw, List.length_append, List.length_cons]
  omega

end ParsesAt

/-! ## Choices

What is read at a cursor is chosen by some value, mostly the kind of the next token.  Each
alternative covers some of the values. -/

/-- Where a word of `r` stands at `c`, the value is one of `xs`; and for those values `p` parses
`r`. -/
structure Decides {τ : Type} (x : τ) (xs : List τ) (F : Kind → Prop) (c : Cursor) (p : Parser α)
    (r : Rule α) : Prop where
  here : ∀ w b rest, r w b → c.view = w ++ rest → x ∈ xs
  parses : x ∈ xs → ParsesAt F c p r

namespace Decides

variable {τ : Type} {x : τ} {F : Kind → Prop} {p : Parser α} {r s : Rule α}

theorem one {y : τ} (hr : ∀ w b rest, r w b → c.view = w ++ rest → x = y)
    (h : x = y → ParsesAt F c p r) : Decides x [y] F c p r :=
  ⟨fun w b rest hw hview => List.mem_singleton.2 (hr w b rest hw hview),
    fun hx => h (List.mem_singleton.1 hx)⟩

omit [Seen α] in
theorem item {g : α → β} {q : Parser β} {y : τ}
    (hr : ∀ {w rest a}, r w a → c.view = w ++ rest → x = y)
    (h : x = y → ParsesAt F c q (g <$> r)) : Decides x [y] F c q (g <$> r) :=
  one (fun _ _ _ ⟨_, hw, _⟩ hview => hr hw hview) h

theorem kind {k : Kind} (hr : r.Begins (· = k)) (h : c.current.kind = k → ParsesAt F c p r) :
    Decides c.current.kind [k] F c p r :=
  one (fun _ _ _ hw hview => current_kind_of_begins hr hw hview) h

theorem or {xs ys : List τ} (h : Decides x xs F c p r) (h' : Decides x ys F c p s) :
    Decides x (xs ++ ys) F c p (r <|> s) where
  here := by
    rintro w b rest (hw | hw) hview
    · exact List.mem_append_left _ (h.here w b rest hw hview)
    · exact List.mem_append_right _ (h'.here w b rest hw hview)
  parses hx := by
    refine ⟨fun hread => ?_, ?_⟩
    · rcases List.mem_append.1 hx with hx | hx
      · exact ((h.parses hx).sound hread).imp fun _ hw => ⟨hw.1, .inl hw.2⟩
      · exact ((h'.parses hx).sound hread).imp fun _ hw => ⟨hw.1, .inr hw.2⟩
    · rintro w b rest (hw | hw) hview hF
      · exact (h.parses (h.here w b rest hw hview)).complete hw hview hF
      · exact (h'.parses (h'.here w b rest hw hview)).complete hw hview hF

/-- Where no alternative is chosen, nothing is read. -/
theorem all {xs : List τ} (h : Decides x xs F c p r)
    (hnone : x ∉ xs → ∀ a d, ¬p.Reads c a d) : ParsesAt F c p r where
  sound hread := by
    by_cases hx : x ∈ xs
    · exact (h.parses hx).sound hread
    · exact absurd hread (hnone hx _ _)
  complete hw hview := (h.parses (h.here _ _ _ hw hview)).complete hw hview

end Decides

/-! ## Parsers that call themselves -/

/-- Where the next token is of some kind, the readings of `p` are the derivations of `r`. -/
def Parses (P F : Kind → Prop) (p : Parser α) (r : Rule α) : Prop :=
  ∀ c : Cursor, P c.current.kind → ParsesAt F c p r

/-- A parser that calls itself parses the rule that refers to itself in the same way.  The step may
rely on what its rule always gives, `I`. -/
theorem Parses.recursive {P F : Kind → Prop} {step : Parser α → Parser α}
    {rule : Rule α → Rule α} (hlocal : Local step) (wanted : Wanted)
    (hle : ∀ r s, Rule.Le r s → (rule r).Le (rule s)) {I : Rule α → Prop} (hnothing : I .nothing)
    (hrule : ∀ r, I (rule r)) (h : ∀ p r, I r → Parses P F p r → Parses P F (step p) (rule r)) :
    Parses P F (Parser.recursive wanted step) (.nested rule) := by
  have hiterate : ∀ n, I (rule^[n] .nothing) ∧
      Parses P F (step^[n] (want wanted)) (rule^[n] .nothing) := by
    intro n
    induction n with
    | zero =>
      exact ⟨hnothing, fun c _ => ⟨fun hread => absurd hread not_reads_want, fun hr => hr.elim⟩⟩
    | succ n ih =>
      rw [Function.iterate_succ_apply', Function.iterate_succ_apply']
      exact ⟨hrule _, h _ _ ih.1 ih.2⟩
  have hreads : ∀ {c a d} n, c.remaining < n →
      ((Parser.recursive wanted step).Reads c a d ↔ (step^[n] (want wanted)).Reads c a d) := by
    intro c a d n hn
    simp only [Reads, Yields, recursive_eq_iterate hlocal wanted n c hn]
  intro c hP
  refine ⟨fun hread => ?_, ?_⟩
  · obtain ⟨w, hw, hr⟩ := ((hiterate _).2 c hP).sound ((hreads _ (Nat.lt_succ_self _)).1 hread)
    exact ⟨w, hw, _, hr⟩
  · rintro w b rest ⟨n, hn⟩ hview hF
    -- As many steps as derive the word, and as many as the parser needs.
    have hr := Rule.iterate_le hle (Nat.le_max_left n (c.remaining + 1)) w b hn
    obtain ⟨a, d, hread, hd⟩ := ((hiterate _).2 c hP).complete hr hview hF
    exact ⟨a, d, (hreads _ (Nat.le_max_right n (c.remaining + 1))).2 hread, hd⟩

end Parser

end ProtoDecl.Schema
