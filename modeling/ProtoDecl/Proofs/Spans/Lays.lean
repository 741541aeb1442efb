import ProtoDecl.Proofs.Reading.Recursion
import ProtoDecl.Proofs.Spans.Order
import ProtoDecl.Proofs.Spans.Placed

/-!
# Laying down nodes while reading

A parser `Lays` nodes if what it yields is a sequence of placed trees between the token that was
next when it began and the last one it read.  This holds whatever it reports, so nothing is said
here of errors.

In the middle of a production, `Laying c₀ parts c` says that the reading that began at `c₀` is now
at `c`, and that the parts read so far are laid in between.  Reading on keeps what was laid
(`Laying.pass`), and a further part is laid behind it (`Laying.next`).  At its end the production
takes the span from its first token through the last one read, and all its parts lie within
(`Laying.spanned`).
-/

namespace ProtoDecl.Schema.Parser

open Cursor (Ordered)

variable {α β σ : Type} {c c₀ d : Cursor}

/-! ## What a parser ensures -/

/-- Whatever `p` yields from `c` on satisfies `Q`. -/
def Ensures (c : Cursor) (p : Parser α) (Q : α → Cursor → Prop) : Prop :=
  ∀ a d, p.Yields c a d → Q a d

namespace Ensures

variable {p : Parser α} {f : α → Parser β} {P : α → Cursor → Prop} {Q : β → Cursor → Prop}

theorem pure {b : β} (h : Q b c) : Ensures c (Pure.pure b) Q := by
  intro b' d hy
  obtain ⟨rfl, rfl⟩ := yields_pure.1 hy
  exact h

theorem bind (hp : Ensures c p P)
    (hf : ∀ a c', p.Yields c a c' → P a c' → Ensures c' (f a) Q) : Ensures c (p >>= f) Q := by
  intro b d hy
  obtain ⟨a, c', ha, hb⟩ := yields_bind.1 hy
  exact hf a c' ha (hp a c' ha) b d hb

/-- A step of which nothing has to be known. -/
theorem next (hf : ∀ a c', p.Yields c a c' → Ensures c' (f a) Q) : Ensures c (p >>= f) Q := by
  intro b d hy
  obtain ⟨a, c', ha, hb⟩ := yields_bind.1 hy
  exact hf a c' ha b d hb

theorem ask {γ : Type} {g : Cursor → γ} {f : γ → Parser β} (h : Ensures c (f (g c)) Q) :
    Ensures c (Parser.ask g >>= f) Q := by
  intro b d hy
  obtain ⟨a, c', ha, hb⟩ := yields_bind.1 hy
  obtain ⟨rfl, rfl⟩ := yields_ask.1 ha
  exact h b d hb

theorem take {f : Token → Parser β} (h : Ensures c.advance (f c.current) Q) :
    Ensures c (Parser.take >>= f) Q := by
  intro b d hy
  obtain ⟨a, c', ha, hb⟩ := yields_bind.1 hy
  obtain ⟨rfl, rfl⟩ := yields_take.1 ha
  exact h b d hb

/-- A token that may be there. -/
theorem accept {k : Kind} {f : Option Token → Parser β}
    (hsome : c.current.kind = k → Ensures c.advance (f (some c.current)) Q)
    (hnone : Ensures c (f none) Q) : Ensures c (Parser.accept k >>= f) Q := by
  intro b d hy
  obtain ⟨o, c', ho, hb⟩ := yields_bind.1 hy
  rcases yields_accept.1 ho with ⟨hk, rfl, rfl⟩ | ⟨-, rfl, rfl⟩
  · exact hsome hk b d hb
  · exact hnone b d hb

/-- A token that has to be there. -/
theorem expectAs {k : Kind} {wanted : Wanted} {f : Token → Parser β}
    (h : c.current.kind = k → Ensures c.advance (f c.current) Q) :
    Ensures c (Parser.expectAs k wanted >>= f) Q := by
  intro b d hy
  obtain ⟨t, c', ht, hb⟩ := yields_bind.1 hy
  obtain ⟨hk, rfl, rfl⟩ := yields_expectAs.1 ht
  exact h hk b d hb

theorem ite {p q : Parser β} {x : Prop} [Decidable x] (hp : x → Ensures c p Q)
    (hq : ¬x → Ensures c q Q) : Ensures c (if x then p else q) Q := by
  split
  · exact hp ‹_›
  · exact hq ‹_›

end Ensures

/-! ## Productions -/

/-- Every result is a part that is laid between the next token and the last one read. -/
def Lays (p : Parser α) (part : α → List Node) : Prop :=
  ∀ c, Ordered c → Ensures c p fun a d => Laid c.front d.lastEnd (part a)

/-- The reading that began at `c₀` is at `c`, and the parts have been laid in between. -/
structure Laying (c₀ : Cursor) (parts : List (List Node)) (c : Cursor) : Prop where
  ordered : Ordered c₀
  leads : c₀.Leads c
  laid : ∀ part ∈ parts, Laid c₀.front c.lastEnd part

namespace Laying

variable {parts : List (List Node)} {p : Parser α} {f : α → Parser β} {Q : β → Cursor → Prop}

theorem start (h : Ordered c) : Laying c [] c :=
  ⟨h, .refl c, by simp⟩

theorem later (h : Laying c₀ parts c) : c₀.Later c :=
  h.ordered.later h.leads

/-- A part that has just been read, beside those before. -/
theorem concat (h : Laying c₀ parts c) (hleads : c.Leads d) {part : List Node}
    (hpart : Laid c.front d.lastEnd part) : Laying c₀ (parts ++ [part]) d := by
  have hlater := h.later.ordered.later hleads
  refine ⟨h.ordered, h.leads.trans hleads, fun q hq => ?_⟩
  rcases List.mem_append.1 hq with hq | hq
  · exact (h.laid q hq).mono (Nat.le_refl _) hlater.lastEnd_le
  · rw [List.mem_singleton.1 hq]
    exact hpart.mono h.later.front_le (Nat.le_refl _)

/-- What was just read, added to one of the parts read before. -/
theorem grow (h : Laying c₀ parts c) (hleads : c.Leads d) {new : List Node}
    (hnew : Laid c.front d.lastEnd new) {parts' : List (List Node)}
    (hparts : ∀ q ∈ parts', q ∈ parts ∨ ∃ part ∈ parts, q = part ++ new) :
    Laying c₀ parts' d := by
  have hlater := h.later.ordered.later hleads
  refine ⟨h.ordered, h.leads.trans hleads, fun q hq => ?_⟩
  rcases hparts q hq with hq | ⟨part, hpart, rfl⟩
  · exact (h.laid q hq).mono (Nat.le_refl _) hlater.lastEnd_le
  · exact (h.laid part hpart).append hnew h.later.ordered.lastEnd_le_front h.later.front_le
      hlater.lastEnd_le

/-- Parts may be forgotten, and empty ones be there. -/
theorem weaken (h : Laying c₀ parts c) {parts' : List (List Node)}
    (hparts : ∀ q ∈ parts', q ∈ parts ∨ q = []) : Laying c₀ parts' c := by
  refine ⟨h.ordered, h.leads, fun q hq => ?_⟩
  rcases hparts q hq with hq | rfl
  · exact h.laid q hq
  · exact .nil

/-- What was read last may be left out of the tree. -/
theorem forget {part : List Node} (h : Laying c₀ (parts ++ [part]) c) : Laying c₀ parts c :=
  h.weaken fun _ hq => .inl (List.mem_append_left _ hq)

/-- Reading on keeps what was laid. -/
theorem onward (h : Laying c₀ parts c) (hleads : c.Leads d) : Laying c₀ parts d :=
  (h.concat hleads .nil).forget

theorem pass (h : Laying c₀ parts c) (hf : ∀ a c', Laying c₀ parts c' → Ensures c' (f a) Q) :
    Ensures c (p >>= f) Q := by
  intro b d hy
  obtain ⟨a, c', ha, hb⟩ := yields_bind.1 hy
  exact hf a c' (h.onward ha.leads) b d hb

theorem next {part : α → List Node} (h : Laying c₀ parts c) (hp : Lays p part)
    (hf : ∀ a c', Laying c₀ (parts ++ [part a]) c' → Ensures c' (f a) Q) :
    Ensures c (p >>= f) Q := by
  intro b d hy
  obtain ⟨a, c', ha, hb⟩ := yields_bind.1 hy
  exact hf a c' (h.concat ha.leads (hp c h.later.ordered a c' ha)) b d hb

/-- What is read is added to one of the parts. -/
theorem add {part : α → List Node} {parts' : α → List (List Node)} (h : Laying c₀ parts c)
    (hp : Lays p part) (hf : ∀ a c', Laying c₀ (parts' a) c' → Ensures c' (f a) Q)
    (hparts : ∀ a, ∀ q ∈ parts' a, q ∈ parts ∨ ∃ r ∈ parts, q = r ++ part a) :
    Ensures c (p >>= f) Q := by
  intro b d hy
  obtain ⟨a, c', ha, hb⟩ := yields_bind.1 hy
  exact hf a c' (h.grow ha.leads (hp c h.later.ordered a c' ha) (hparts a)) b d hb

/-- The first token of a production. -/
theorem take {f : Token → Parser β} (h : Laying c₀ parts c)
    (hf : Laying c₀ parts c.advance → Ensures c.advance (f c.current) Q) :
    Ensures c (Parser.take >>= f) Q :=
  .take (hf (h.onward c.leads_advance))

/-- The end of a production: its node reaches from its first token through the last one read. -/
theorem closed (node : β → Node) {k : Span → β} (h : Laying c₀ parts c)
    (hlt : c₀.front < c.lastEnd) (hparts : ∀ span, (node (k span)).parts ⊆ parts)
    (hspan : ∀ span, (node (k span)).span = span) :
    Ensures c (spanFrom c₀.current.span >>= fun span => Pure.pure (k span))
      fun b d => Laid c₀.front d.lastEnd [node b] := by
  refine .ask (.pure ?_)
  have hstop : (c.spanFrom c₀.current.span).stop = c.lastEnd :=
    Nat.max_eq_left (h.later.begun hlt)
  have hstart : (c.spanFrom c₀.current.span).start = c₀.front := rfl
  refine .single ?_ ?_ ?_ fun part hpart => ?_
  · rw [hspan, hstart]
  · rwa [hspan, hstart, hstop]
  · rw [hspan, hstop]
  · rw [hspan, hstart, hstop]
    exact h.laid part (hparts _ hpart)

/-- A production that yields the only part it laid. -/
theorem only {part : List Node} (h : Laying c₀ [part] c) : Laid c₀.front c.lastEnd part :=
  h.laid part List.mem_cons_self

/-- A part that is not empty has been read from tokens. -/
theorem reached (h : Laying c₀ parts c) (hne : ∃ part ∈ parts, part ≠ []) :
    c₀.front < c.lastEnd := by
  obtain ⟨part, hpart, hne⟩ := hne
  exact (h.laid part hpart).le_of_ne_nil hne

theorem spanned (node : β → Node) {k : Span → β} (h : Laying c₀ parts c)
    (hne : ∃ part ∈ parts, part ≠ []) (hparts : ∀ span, (node (k span)).parts ⊆ parts)
    (hspan : ∀ span, (node (k span)).span = span) :
    Ensures c (spanFrom c₀.current.span >>= fun span => Pure.pure (k span))
      fun b d => Laid c₀.front d.lastEnd [node b] :=
  h.closed node (h.reached hne) hparts hspan

end Laying

/-! ## Repetition -/

/-- The state that a round leaves. -/
def Round.state : Round σ → σ
  | .again s => s
  | .done s => s

/-- Every statement adds to the parts of the state what it has read. -/
def Extends (statement : σ → Parser σ) (parts : σ → List (List Node)) : Prop :=
  ∀ {c₀ c s}, Laying c₀ (parts s) c → Ensures c (statement s) fun s' d => Laying c₀ (parts s') d

section
variable {parts : σ → List (List Node)} {s : σ}

/-- A statement that reads something and adds it. -/
theorem Laying.added (parts : σ → List (List Node)) {p : Parser α} {part : α → List Node}
    {k : α → σ} (h : Laying c₀ (parts s) c) (hp : Lays p part)
    (hparts : ∀ a, ∀ q ∈ parts (k a), q ∈ parts s ∨ ∃ r ∈ parts s, q = r ++ part a) :
    Ensures c (p >>= fun a => pure (k a)) fun s' d => Laying c₀ (parts s') d :=
  h.add hp (fun _ _ h => .pure h) hparts

theorem Laying.loop (parts : σ → List (List Node)) {round : σ → Parser (Round σ)}
    (hround : ∀ {c s}, Laying c₀ (parts s) c →
      Ensures c (round s) fun r d => Laying c₀ (parts r.state) d)
    (h : Laying c₀ (parts s) c) :
    Ensures c (Parser.loop round s) fun s' d => Laying c₀ (parts s') d := by
  intro s' d hy
  refine loop_invariant (P := fun s c => Laying c₀ (parts s) c) ?_ ?_ ?_ hy h
  · exact fun s c h => h.onward c.leads_advance
  · exact fun s c s' d h hr => hround h (.again s') d hr
  · exact fun s c s' d h hr => hround h (.done s') d hr

theorem Laying.block (parts : σ → List (List Node)) {statement : σ → Parser σ}
    (hstatement : Extends statement parts) {closing : String} (h : Laying c₀ (parts s) c) :
    Ensures c (Parser.block closing statement s) fun s' d => Laying c₀ (parts s') d := by
  refine Laying.loop parts (fun {c s} h => ?_) h
  refine .ask ?_
  split
  · exact h.pass fun _ c' h => .pure h
  · exact h.pass fun _ c' h => .pure h
  · exact h.pass fun _ c' h => .pure h
  · exact .bind (hstatement h) fun s' c' _ h => .pure h

theorem Laying.body (parts : σ → List (List Node)) {statement : σ → Parser σ}
    (hstatement : Extends statement parts) {opening closing : String} (h : Laying c₀ (parts s) c) :
    Ensures c (Parser.body opening closing statement s) fun s' d => Laying c₀ (parts s') d := by
  refine h.pass fun o c' h => ?_
  cases o with
  | none => exact .pure h
  | some t => exact h.block parts hstatement

end

/-! ## Ways of laying -/

theorem lastEnd_advance_of_kind (hc : Ordered c) (hk : c.current.kind ≠ .endOfFile) :
    c.advance.lastEnd = c.current.span.stop ∧ c.front < c.current.span.stop := by
  obtain ⟨t, w, hview⟩ : ∃ t w, c.view = t :: w :=
    List.exists_cons_of_ne_nil fun hview => hk (Cursor.current_kind_eq_endOfFile_iff.2 hview)
  unfold Ordered at hc
  rw [hview] at hc
  rw [Cursor.lastEnd_advance_of_view hview, Cursor.front_of_view hview,
    Cursor.current_of_view hview]
  exact ⟨rfl, hc.2.1⟩

/-- A token that was there has been read. -/
theorem front_lt_lastEnd (hc : Ordered c) (hk : c.current.kind ≠ .endOfFile)
    (hleads : c.advance.Leads d) : c.front < d.lastEnd := by
  obtain ⟨hstop, hlt⟩ := lastEnd_advance_of_kind hc hk
  have hle := (hc.later_advance.ordered.later hleads).lastEnd_le
  omega

/-- A node that is a single token. -/
theorem laid_current (hc : Ordered c) (hk : c.current.kind ≠ .endOfFile) {n : Node}
    (hspan : n.span = c.current.span) (hparts : n.parts = []) :
    Laid c.front c.advance.lastEnd [n] := by
  obtain ⟨hstop, hlt⟩ := lastEnd_advance_of_kind hc hk
  rw [hstop]
  refine .single ?_ ?_ ?_ (by simp [hparts])
  all_goals rw [hspan]
  · exact Nat.le_refl _
  · exact hlt

theorem Lays.attempt {p : Parser α} {node : α → Node} (hp : Lays p fun a => [node a]) :
    Lays (Parser.attempt p) fun o => o.toList.map node := by
  intro c hc o d hy
  obtain ⟨-, ho⟩ := yields_attempt_cases hy
  cases o with
  | none => exact .nil
  | some a => exact hp c hc a d (ho a rfl)

theorem Lays.moving {p : Parser α} {part : α → List Node} (hp : Lays p part) :
    Lays (Parser.moving p) fun result => part result.1 := by
  intro c hc ⟨a, moved⟩ d hy
  exact hp c hc a d (yields_moving.1 hy).1

theorem Lays.recursive {step : Parser α → Parser α} {part : α → List Node} (hlocal : Local step)
    (wanted : Wanted) (hstep : ∀ p, Lays p part → Lays (step p) part) :
    Lays (Parser.recursive wanted step) part := by
  intro c hc a d hy
  have hrun := recursive_induct hlocal wanted
    (P := fun c out => Ordered c → ∀ a d, out = (some a, d) → Laid c.front d.lastEnd (part a))
    (fun c _ a d hy => absurd hy not_yields_want)
    (fun p hp c hc => hstep p (fun c hc a d => hp c hc a d) c hc) c
  exact hrun hc a d hy

end ProtoDecl.Schema.Parser
