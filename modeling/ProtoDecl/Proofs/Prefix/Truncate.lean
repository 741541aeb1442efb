import ProtoDecl.Proofs.Grammar.Declarations

/-!
# Readings that stay before an end

A cursor continues another one if it sees the same tokens, and then more (`Cursor.Continues`).  A
reading from the longer view that ends before the additional tokens could as well be made from the
shorter view, where the end of the file stands in their place: what it yields is the same, with all
spans (`TruncatesAt`).

That holds of every parser of the grammar, because looking ahead is always followed by reading what
was looked for.  Where it is found beyond the end of the shorter view, the reading does not end
before.

Each way of building parsers has its rule here.  Some of them need that there is a next token in the
shorter view.  A parser of a rule whose words are not empty may rely on that (`of_begins`).
-/

namespace ProtoDecl.Schema

namespace Cursor

variable {v : List Token} {c c' d' : Cursor}

/-- `c'` sees what `c` sees, and then `v`. -/
structure Continues (v : List Token) (c c' : Cursor) : Prop where
  view : c'.view = c.view ++ v
  lastEnd : c'.lastEnd = c.lastEnd

namespace Continues

theorem current (h : Continues v c c') (hview : c.view ≠ []) : c'.current = c.current := by
  obtain ⟨t, w, hw⟩ := List.exists_cons_of_ne_nil hview
  have hw' : c'.view = t :: (w ++ v) := by rw [h.view, hw, List.cons_append]
  rw [current_of_view hw, current_of_view hw']

theorem advance (h : Continues v c c') (hview : c.view ≠ []) :
    Continues v c.advance c'.advance := by
  obtain ⟨t, w, hw⟩ := List.exists_cons_of_ne_nil hview
  have hw' : c'.view = t :: (w ++ v) := by rw [h.view, hw, List.cons_append]
  refine ⟨?_, ?_⟩
  · rw [view_advance, view_advance, hw, hw', List.tail_cons, List.tail_cons]
  · rw [lastEnd_advance, lastEnd_advance, hw, hw']
    rfl

theorem spanFrom (h : Continues v c c') (start : Span) : c'.spanFrom start = c.spanFrom start := by
  rw [Cursor.spanFrom, Cursor.spanFrom, h.lastEnd]

/-- What holds of the next token of the longer view, and at the end of the file too, holds of the
next token of the shorter one. -/
theorem kind_of (h : Continues v c c') {P : Kind → Prop} (hend : P .endOfFile)
    (hk : P c'.current.kind) : P c.current.kind := by
  by_cases hview : c.view = []
  · rwa [current_kind_eq_endOfFile_iff.2 hview]
  · rwa [← h.current hview]

theorem kind_ne (h : Continues v c c') {k : Kind} (hk : k ≠ .endOfFile)
    (hne : c'.current.kind ≠ k) : c.current.kind ≠ k :=
  h.kind_of (P := (· ≠ k)) hk.symm hne

/-- A reading that ends before the additional tokens has read tokens of the shorter view. -/
theorem view_ne_nil (h : Continues v c c') (hlt : d'.view.length < c'.view.length)
    (hd : v <:+ d'.view) : c.view ≠ [] := by
  intro hnil
  have hle := hd.length_le
  rw [h.view, hnil, List.nil_append] at hlt
  omega

theorem view_ne_nil_of_kind (h : Continues v c c') (hk : c'.current.kind ≠ .endOfFile)
    (hleads : c'.advance.Leads d') (hd : v <:+ d'.view) : c.view ≠ [] := by
  refine h.view_ne_nil ?_ (hd.trans hleads.view_suffix)
  rw [view_eq_cons hk, List.length_cons]
  exact Nat.lt_succ_self _

/-- A token that is read before the additional ones is one of the shorter view. -/
theorem read (h : Continues v c c') (hk : c'.current.kind ≠ .endOfFile)
    (hd : v <:+ c'.advance.view) :
    c'.current = c.current ∧ Continues v c.advance c'.advance := by
  have hview := h.view_ne_nil_of_kind hk (.refl _) hd
  exact ⟨h.current hview, h.advance hview⟩

/-- A parser of words that are not empty has read a token of the shorter view. -/
theorem view_ne_nil_of_begins {α : Type} [Seen α] {F P : Kind → Prop} {p : Parser α} {r : Rule α}
    {a : α} (h : Continues v c c') (hp : Parser.ParsesAt F c' p r) (hr : r.Begins P)
    (hread : p.Reads c' a d') (hd : v <:+ d'.view) : c.view ≠ [] := by
  refine h.view_ne_nil ?_ hd
  obtain ⟨w, hw, hrw⟩ := hp.sound hread
  obtain ⟨t, u, rfl, -⟩ := hr w _ hrw
  rw [hw, List.length_append, List.length_cons]
  omega

/-- A test of the next token and the one behind it, which fails at the end of the file, gives the
same answer in either view, unless it succeeds because of an additional token. -/
theorem pair_eq {test : Kind → Kind → Bool}
    (htest : ∀ k, test k .endOfFile = false ∧ test .endOfFile k = false) (h : Continues v c c')
    (htwo : test c'.current.kind (c'.peek 1).kind = true → c.advance.view ≠ []) :
    test c'.current.kind (c'.peek 1).kind = test c.current.kind (c.peek 1).kind := by
  rw [view_advance] at htwo
  cases hview : c.view with
  | nil =>
    rw [current_kind_eq_endOfFile_iff.2 hview, (htest _).2, Bool.eq_false_iff]
    exact fun hpair => htwo hpair (by rw [hview, List.tail_nil])
  | cons t w =>
    have hview' : c'.view = t :: (w ++ v) := by rw [h.view, hview, List.cons_append]
    rw [hview, List.tail_cons, current_of_view hview', Parser.peek_one_kind hview'] at htwo
    rw [current_of_view hview', current_of_view hview, Parser.peek_one_kind hview',
      Parser.peek_one_kind hview]
    cases w with
    | nil =>
      rw [nextKind_nil, (htest _).1, Bool.eq_false_iff]
      exact fun hpair => htwo hpair rfl
    | cons u w => rfl

end Continues

end Cursor

namespace Parser

open Cursor (Continues)

variable {α β σ : Type} {c : Cursor} {p : Parser α}

/-- A reading of `p` that ends before the tokens by which another cursor continues `c` can be made
from `c` too. -/
def TruncatesAt (c : Cursor) (p : Parser α) : Prop :=
  ∀ ⦃v c' a d'⦄, c.Continues v c' → p.Reads c' a d' → v <:+ d'.view →
    ∃ d, p.Reads c a d ∧ d.Continues v d'

namespace TruncatesAt

/-! ## Sequences -/

theorem pure (a : α) : TruncatesAt c (Pure.pure a) := by
  intro v c' b d' hc hread hd
  obtain ⟨rfl, rfl⟩ := reads_pure.1 hread
  exact ⟨c, reads_pure.2 ⟨rfl, rfl⟩, hc⟩

theorem bind {f : α → Parser β} (hp : TruncatesAt c p)
    (hf : ∀ a d, p.Reads c a d → TruncatesAt d (f a)) : TruncatesAt c (p >>= f) := by
  intro v c' b d' hc hread hd
  obtain ⟨a, c₁', ha, hb⟩ := reads_bind.1 hread
  obtain ⟨c₁, ha₁, hc₁⟩ := hp hc ha (hd.trans hb.leads.view_suffix)
  obtain ⟨d, hb₁, hd₁⟩ := hf a c₁ ha₁ hc₁ hb hd
  exact ⟨d, reads_bind.2 ⟨a, c₁, ha₁, hb₁⟩, hd₁⟩

theorem attempt (hp : TruncatesAt c p) : TruncatesAt c (Parser.attempt p) := by
  intro v c' o d' hc hread hd
  obtain ⟨a, rfl, ha⟩ := reads_attempt.1 hread
  obtain ⟨d, ha₁, hd₁⟩ := hp hc ha hd
  exact ⟨d, reads_attempt.2 ⟨a, rfl, ha₁⟩, hd₁⟩

/-- What is added to a tree, if it was read. -/
theorem added (hp : TruncatesAt c p) {k : Option α → β} :
    TruncatesAt c (Parser.attempt p >>= fun o => Pure.pure (k o)) :=
  hp.attempt.bind fun _ _ _ => pure _

theorem tolerate (hp : TruncatesAt c p) : TruncatesAt c (Parser.tolerate p) := by
  intro v c' u d' hc hread hd
  obtain ⟨a, ha⟩ := reads_tolerate.1 hread
  obtain ⟨d, ha₁, hd₁⟩ := hp hc ha hd
  exact ⟨d, reads_tolerate.2 ⟨a, ha₁⟩, hd₁⟩

/-- A parser that always reports makes no reading. -/
theorem never (h : ∀ c a d, ¬p.Reads c a d) : TruncatesAt c p :=
  fun _ _ _ _ _ hread _ => absurd hread (h _ _ _)

theorem ite {P : Prop} [Decidable P] {q : Parser α} (hp : P → TruncatesAt c p)
    (hq : ¬P → TruncatesAt c q) : TruncatesAt c (if P then p else q) := by
  split
  · exact hp ‹_›
  · exact hq ‹_›

/-! ## Looking and moving -/

/-- What is asked has the same answer in either view, where the reading then ends before the
additional tokens. -/
theorem look {γ : Type} {g : Cursor → γ} {f : γ → Parser β}
    (hg : ∀ ⦃v c' b d'⦄, c.Continues v c' → (f (g c')).Reads c' b d' → v <:+ d'.view →
      g c' = g c)
    (h : TruncatesAt c (f (g c))) : TruncatesAt c (Parser.ask g >>= f) := by
  intro v c' b d' hc hread hd
  replace hread := reads_ask_bind.1 hread
  rw [hg hc hread hd] at hread
  obtain ⟨d, hb, hd₁⟩ := h hc hread hd
  exact ⟨d, reads_ask_bind.2 hb, hd₁⟩

theorem ask {γ : Type} {g : Cursor → γ} {f : γ → Parser β}
    (hg : ∀ ⦃v c'⦄, c.Continues v c' → g c' = g c) (h : TruncatesAt c (f (g c))) :
    TruncatesAt c (Parser.ask g >>= f) :=
  look (fun _ _ _ _ hc _ _ => hg hc) h

/-- Looking at the next token and the one behind it.  If that succeeds, both have to be read, so a
reading that ends before the additional tokens saw none of them. -/
theorem lookahead {g : Cursor → Bool} (test : Kind → Kind → Bool)
    (hg : ∀ c, g c = test c.current.kind (c.peek 1).kind)
    (htest : ∀ k, test k .endOfFile = false ∧ test .endOfFile k = false) {f : Bool → Parser β}
    (hmoves : ∀ ⦃c' b d'⦄, g c' = true → (f true).Reads c' b d' →
      d'.view.length + 1 < c'.view.length)
    (htrue : g c = true → TruncatesAt c (f true)) (hfalse : TruncatesAt c (f false)) :
    TruncatesAt c (Parser.ask g >>= f) := by
  refine look (fun v c' b d' hc hread hd => ?_) ?_
  · rw [hg, hg]
    refine hc.pair_eq htest fun htwo => ?_
    rw [← hg] at htwo
    rw [htwo] at hread
    have hlt := hmoves htwo hread
    have hview : c.view ≠ [] := hc.view_ne_nil (by omega) hd
    refine (hc.advance hview).view_ne_nil ?_ hd
    rw [Cursor.view_advance, List.length_tail]
    omega
  · cases hgc : g c with
    | true => exact htrue hgc
    | false => exact hfalse

/-- The end of a declaration: its span, and its tree. -/
theorem spanned {start : Span} {k : Span → β} :
    TruncatesAt c (spanFrom start >>= fun span => Pure.pure (k span)) :=
  ask (fun _ _ hc => hc.spanFrom start) (pure _)

theorem current (hview : c.view ≠ []) {f : Token → Parser β} (h : TruncatesAt c (f c.current)) :
    TruncatesAt c (Parser.current >>= f) :=
  ask (fun _ _ hc => hc.current hview) h

theorem kind (hview : c.view ≠ []) {f : Kind → Parser β} (h : TruncatesAt c (f c.current.kind)) :
    TruncatesAt c (Parser.kind >>= f) :=
  ask (fun _ _ hc => congrArg Token.kind (hc.current hview)) h

theorem take (hview : c.view ≠ []) {f : Token → Parser β}
    (h : TruncatesAt c.advance (f c.current)) : TruncatesAt c (Parser.take >>= f) := by
  intro v c' b d' hc hread hd
  replace hread := reads_take_bind.1 hread
  rw [hc.current hview] at hread
  obtain ⟨d, hb, hd₁⟩ := h (hc.advance hview) hread hd
  exact ⟨d, reads_take_bind.2 hb, hd₁⟩

theorem skip (hview : c.view ≠ []) {f : Unit → Parser β} (h : TruncatesAt c.advance (f ())) :
    TruncatesAt c (Parser.skip >>= f) := by
  intro v c' b d' hc hread hd
  obtain ⟨d, hb, hd₁⟩ := h (hc.advance hview) (reads_skip_bind.1 hread) hd
  exact ⟨d, reads_skip_bind.2 hb, hd₁⟩

theorem accept {k : Kind} (hk : k ≠ .endOfFile) {f : Option Token → Parser β}
    (hsome : c.current.kind = k → TruncatesAt c.advance (f (some c.current)))
    (hnone : c.current.kind ≠ k → TruncatesAt c (f none)) :
    TruncatesAt c (Parser.accept k >>= f) := by
  intro v c' b d' hc hread hd
  replace hread := reads_accept_bind.1 hread
  split at hread
  · rename_i hk'
    obtain ⟨hcurrent, hnext⟩ := hc.read (hk' ▸ hk) (hd.trans hread.leads.view_suffix)
    rw [hcurrent] at hread hk'
    obtain ⟨d, hb, hd₁⟩ := hsome hk' hnext hread hd
    exact ⟨d, reads_accept_bind.2 (by rwa [if_pos hk']), hd₁⟩
  · rename_i hk'
    have hne := hc.kind_ne hk hk'
    obtain ⟨d, hb, hd₁⟩ := hnone hne hc hread hd
    exact ⟨d, reads_accept_bind.2 (by rwa [if_neg hne]), hd₁⟩

theorem expectAs {k : Kind} (hk : k ≠ .endOfFile) (wanted : Wanted) :
    TruncatesAt c (Parser.expectAs k wanted) := by
  intro v c' t d' hc hread hd
  obtain ⟨hk', rfl, rfl⟩ := reads_expectAs.1 hread
  obtain ⟨hcurrent, hnext⟩ := hc.read (hk' ▸ hk) hd
  rw [hcurrent] at hk' ⊢
  exact ⟨c.advance, reads_expectAs.2 ⟨hk', rfl, rfl⟩, hnext⟩

theorem name (subject : String) : TruncatesAt c (Parser.name subject) := by
  intro v c' n d' hc hread hd
  obtain ⟨hname, rfl, rfl⟩ := reads_name.1 hread
  obtain ⟨hcurrent, hnext⟩ := hc.read (ne_endOfFile_of_isName hname) hd
  rw [hcurrent] at hname ⊢
  exact ⟨c.advance, reads_name.2 ⟨hname, rfl, rfl⟩, hnext⟩

theorem of_begins [Seen α] {F P : Kind → Prop} {r : Rule α} (hp : ∀ c', ParsesAt F c' p r)
    (hr : r.Begins P) (h : c.view ≠ [] → TruncatesAt c p) : TruncatesAt c p :=
  fun _ c' _ _ hc hread hd => h (hc.view_ne_nil_of_begins (hp c') hr hread hd) hc hread hd

/-! ## Repetition -/

/-- Each round of a loop ends before the additional tokens if the last one does. -/
theorem loop {round : σ → Parser (Round σ)}
    (hprogress : ∀ s c s' d, (round s).Reads c (.again s') d → d.remaining < c.remaining)
    (h : ∀ s d, c.Leads d → TruncatesAt d (round s)) (s : σ) :
    TruncatesAt c (Parser.loop round s) := by
  intro v c' s' d' hc hread hd
  have hrounds : c'.Leads d' ∧ ∀ c₁, c.Leads c₁ → c₁.Continues v c' → v <:+ d'.view →
      ∃ d, (Parser.loop round s).Reads c₁ s' d ∧ d.Continues v d' := by
    refine Reads.loop_induct
      (P := fun s c' s' d' => c'.Leads d' ∧ ∀ c₁, c.Leads c₁ → c₁.Continues v c' →
        v <:+ d'.view → ∃ d, (Parser.loop round s).Reads c₁ s' d ∧ d.Continues v d')
      hprogress ?_ ?_ hread
    · intro s c' s' d' hlast
      refine ⟨hlast.leads, fun c₁ hleads hc₁ hd => ?_⟩
      obtain ⟨d, hlast₁, hd₁⟩ := h s c₁ hleads hc₁ hlast hd
      exact ⟨d, (reads_loop hprogress).2 (.inl hlast₁), hd₁⟩
    · rintro s c' s₁ c₁' s' d' hround ⟨hrest, ih⟩
      refine ⟨hround.leads.trans hrest, fun c₁ hleads hc₁ hd => ?_⟩
      obtain ⟨c₂, hround₁, hc₂⟩ := h s c₁ hleads hc₁ hround (hd.trans hrest.view_suffix)
      obtain ⟨d, hread₁, hd₁⟩ := ih c₂ (hleads.trans hround₁.leads) hc₂ hd
      exact ⟨d, (reads_loop hprogress).2 (.inr ⟨s₁, c₂, hround₁, hread₁⟩), hd₁⟩
  exact hrounds.2 c (.refl c) hc hd

/-- A parser that calls itself further on may rely on what holds there. -/
theorem recursive {step : Parser α → Parser α} (hlocal : Local step) (wanted : Wanted)
    {I : Cursor → Prop}
    (h : ∀ c, I c → (∀ d, d.remaining < c.remaining → I d →
        TruncatesAt d (Parser.recursive wanted step)) →
      TruncatesAt c (step (Parser.recursive wanted step)))
    (hc : I c) : TruncatesAt c (Parser.recursive wanted step) := by
  induction c using (measure Cursor.remaining).wf.induction with
  | h c ih =>
    intro v c' a d' hc' hread hd
    rw [Reads, Yields, recursive_eq_step hlocal] at hread
    obtain ⟨d, hread₁, hd₁⟩ := h c hc ih hc' hread hd
    refine ⟨d, ?_, hd₁⟩
    rw [Reads, Yields, recursive_eq_step hlocal]
    exact hread₁

end TruncatesAt

end Parser

end ProtoDecl.Schema
