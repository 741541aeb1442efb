import ProtoDecl.Proofs.Spans.Lays

/-!
# What holds of all that is yielded

`Keeps K errors c p P` says that what `p` yields from `c` on satisfies `P`, where `K` holds of `c`
and `errors` are all that is reported in the end.

* `K` is a condition that reading on keeps (`Lasting`), so it holds at every step of a parser once
  it holds at the first.
* Errors are only added.  So a parser that reports one may take for granted that `errors` is not
  empty (`Keeps.report`).

The rules follow the ways of building parsers.
-/

namespace ProtoDecl.Schema

/-- A condition on cursors that holds of all later ones too. -/
structure Lasting where
  holds : Cursor → Prop
  leads : ∀ {c d}, holds c → c.Leads d → holds d

/-- The condition, where fewer than `n` tokens are left. -/
def Lasting.below (K : Lasting) (n : Nat) : Lasting where
  holds c := K.holds c ∧ c.remaining < n
  leads h hleads := ⟨K.leads h.1 hleads, Nat.lt_of_le_of_lt hleads.remaining_le h.2⟩

/-- Errors are only added. -/
theorem Cursor.Leads.errors_subset {c d : Cursor} (h : c.Leads d) : c.errors ⊆ d.errors := by
  obtain ⟨n, new, rfl⟩ := h
  exact List.subset_append_left c.errors new

namespace Parser

variable {α β σ : Type} {c d : Cursor} {K : Lasting} {errors : List SyntaxError}

/-- Whatever `p` yields from `c` on satisfies `P`, if `errors` are all that is reported in the
end. -/
def Keeps (K : Lasting) (errors : List SyntaxError) (c : Cursor) (p : Parser α) (P : α → Prop) :
    Prop :=
  K.holds c → Ensures c p fun a d => d.errors ⊆ errors → P a

namespace Keeps

variable {p : Parser α} {f : α → Parser β} {P : α → Prop} {Q : β → Prop}

/-! ## Sequences -/

theorem pure {a : α} (h : P a) : Keeps K errors c (Pure.pure a) P :=
  fun _ => .pure fun _ => h

theorem bind (hp : Keeps K errors c p P)
    (hf : ∀ a c', p.Yields c a c' → P a → Keeps K errors c' (f a) Q) :
    Keeps K errors c (p >>= f) Q := by
  intro hc b d hy hd
  obtain ⟨a, c', ha, hb⟩ := yields_bind.1 hy
  have hc' : c'.errors ⊆ errors := fun e he => hd (hb.leads.errors_subset he)
  exact hf a c' ha (hp hc a c' ha hc') (K.leads hc ha.leads) b d hb hd

/-- A step of which nothing has to be known. -/
theorem next (hf : ∀ a c', Keeps K errors c' (f a) Q) : Keeps K errors c (p >>= f) Q :=
  bind (P := fun _ => True) (fun _ _ _ _ _ => trivial) fun a c' _ _ => hf a c'

theorem ite {q : Parser α} {x : Prop} [Decidable x] (hp : x → Keeps K errors c p P)
    (hq : ¬x → Keeps K errors c q P) : Keeps K errors c (if x then p else q) P := by
  split
  · exact hp ‹_›
  · exact hq ‹_›

theorem attempt (hp : Keeps K errors c p P) :
    Keeps K errors c (Parser.attempt p) fun o => ∀ a ∈ o, P a := by
  intro hc o d hy hd a ha
  exact hp hc a d ((yields_attempt_cases hy).2 a ha) hd

theorem moving (hp : Keeps K errors c p P) :
    Keeps K errors c (Parser.moving p) fun result => P result.1 :=
  fun hc result d hy hd => hp hc result.1 d (yields_moving.1 hy).1 hd

/-- Where few tokens are left, more may be taken for granted. -/
theorem below {n : Nat} (hlt : c.remaining < n) (h : Keeps (K.below n) errors c p P) :
    Keeps K errors c p P :=
  fun hc => h ⟨hc, hlt⟩

theorem of_below {n : Nat} (h : c.remaining < n → Keeps K errors c p P) :
    Keeps (K.below n) errors c p P :=
  fun hc => h hc.2 hc.1

/-! ## Looking and moving -/

theorem ask {γ : Type} {g : Cursor → γ} {f : γ → Parser β} (h : Keeps K errors c (f (g c)) Q) :
    Keeps K errors c (Parser.ask g >>= f) Q :=
  fun hc => .ask (h hc)

theorem take {f : Token → Parser β}
    (h : K.holds c → Keeps K errors c.advance (f c.current) Q) :
    Keeps K errors c (Parser.take >>= f) Q :=
  fun hc => .take (h hc (K.leads hc c.leads_advance))

/-- A token that has to be there. -/
theorem expectAs {k : Kind} {wanted : Wanted} {f : Token → Parser β}
    (h : K.holds c → c.current.kind = k → Keeps K errors c.advance (f c.current) Q) :
    Keeps K errors c (Parser.expectAs k wanted >>= f) Q :=
  fun hc => .expectAs fun hk => h hc hk (K.leads hc c.leads_advance)

/-! ## Reporting -/

theorem want {wanted : Wanted} : Keeps K errors c (Parser.want wanted) P :=
  fun _ _ _ hy => absurd hy not_yields_want

/-- What follows a report may rely on it. -/
theorem report {wanted : Wanted} {f : Unit → Parser β}
    (h : ∀ c', errors ≠ [] → Keeps K errors c' (f ()) Q) :
    Keeps K errors c (Parser.report wanted >>= f) Q := by
  intro hc b d hy hd
  obtain ⟨u, c', hu, hb⟩ := yields_bind.1 hy
  have hne : errors ≠ [] := by
    intro hnil
    have hmem : SyntaxError.unexpected wanted c.current ∈ c'.errors := by
      rw [yields_report.1 hu, Cursor.report]
      simp
    have hlast : SyntaxError.unexpected wanted c.current ∈ errors :=
      hd (hb.leads.errors_subset hmem)
    rw [hnil] at hlast
    exact absurd hlast List.not_mem_nil
  exact h c' hne (K.leads hc hu.leads) b d hb hd

/-! ## Repetition -/

/-- The invariant of a loop: `I` holds of the state, unless an error was reported that is not among
`errors` in the end. -/
def Kept (K : Lasting) (errors : List SyntaxError) (I : σ → Prop) (s : σ) (c : Cursor) : Prop :=
  K.holds c ∧ (c.errors ⊆ errors → I s)

section
variable {round : σ → Parser (Round σ)} {I J : σ → Prop} {s : σ}

theorem Kept.advance (h : Kept K errors I s c) : Kept K errors I s c.advance := by
  refine ⟨K.leads h.1 c.leads_advance, fun hd => h.2 ?_⟩
  rwa [Cursor.advance_errors] at hd

/-- A round that begins with the invariant leads to what it keeps. -/
theorem Kept.yields {r : Round σ} {P : Round σ → Prop} (h : Kept K errors I s c)
    (hround : ∀ s c, I s → Keeps K errors c (round s) P) (hr : (round s).Yields c r d) :
    Kept K errors P r d := by
  refine ⟨K.leads h.1 hr.leads, fun hd => ?_⟩
  have hs : I s := h.2 fun e he => hd (hr.leads.errors_subset he)
  exact hround s c hs h.1 r d hr hd

theorem loop (hround : ∀ s c, I s → Keeps K errors c (round s) fun r => I r.state) (h : I s) :
    Keeps K errors c (Parser.loop round s) I := by
  intro hc s' d hy hd
  have hkept : Kept K errors I s' d :=
    loop_invariant (fun _ _ hs => hs.advance) (fun _ _ _ _ hs hr => hs.yields hround hr)
      (fun _ _ _ _ hs hr => hs.yields hround hr) hy ⟨hc, fun _ => h⟩
  exact hkept.2 hd

/-- A loop that ends with a last round: `I` holds before every round, and `J` behind the last. -/
theorem loop_until (hview : ∀ s c s' d, (round s).Yields c (.again s') d → c.view ≠ [])
    (hround : ∀ s c, I s → Keeps K errors c (round s) fun
      | .again s' => I s'
      | .done s' => J s') (h : I s) :
    Keeps K errors c (Parser.loop round s) J := by
  intro hc s' d hy hd
  obtain ⟨s₁, c₁, hs, hr⟩ := loop_last (P := Kept K errors I) (fun _ _ hs => hs.advance) hview
    (fun _ _ _ _ hs hr => hs.yields hround hr) hy ⟨hc, fun _ => h⟩
  exact (hs.yields hround hr).2 hd

/-- A parser that calls itself further on may rely on what holds there. -/
theorem recursive {step : Parser α → Parser α} (hlocal : Local step) (wanted : Wanted)
    (hstep : ∀ inner, (∀ c, Keeps K errors c inner P) → ∀ c, Keeps K errors c (step inner) P) :
    Keeps K errors c (Parser.recursive wanted step) P :=
  recursive_induct hlocal wanted
    (P := fun c out => K.holds c → ∀ a d, out = (some a, d) → d.errors ⊆ errors → P a)
    (fun _ => want) hstep c

/-- The same where only some cursors are asked about, which inner calls have to respect. -/
theorem recursive_at {step : Parser α → Parser α} (hlocal : Local step) (wanted : Wanted)
    {C : Cursor → Prop}
    (hstep : ∀ c, C c →
      (∀ d, d.remaining < c.remaining → C d → Keeps K errors d (Parser.recursive wanted step) P) →
      Keeps K errors c (step (Parser.recursive wanted step)) P) (hc : C c) :
    Keeps K errors c (Parser.recursive wanted step) P := by
  induction hn : c.remaining using Nat.strong_induction_on generalizing c with
  | _ n ih =>
    subst hn
    have hinner := hstep c hc fun d hd hC => ih d.remaining hd hC rfl
    intro hK a d hy
    rw [Yields, recursive_eq_step hlocal] at hy
    exact hinner hK a d hy

end

/-! ## Statements between braces -/

section
variable {statement : σ → Parser σ} {I : σ → Prop} {s : σ}

theorem block {closing : String} (hstatement : ∀ s c, I s → Keeps K errors c (statement s) I)
    (h : I s) : Keeps K errors c (Parser.block closing statement s) I := by
  refine loop (fun s c hs => ask ?_) h
  split
  · exact next fun _ _ => pure hs
  · exact next fun _ _ => pure hs
  · exact next fun _ _ => pure hs
  · exact bind (hstatement s c hs) fun _ _ _ hs' => pure hs'

theorem body {opening closing : String} (hstatement : ∀ s c, I s → Keeps K errors c (statement s) I)
    (h : I s) : Keeps K errors c (Parser.body opening closing statement s) I := by
  refine next fun o c' => ?_
  cases o with
  | none => exact pure h
  | some t => exact block hstatement h

end

end Keeps

end Parser

end ProtoDecl.Schema
