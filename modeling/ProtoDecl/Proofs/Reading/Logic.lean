import Mathlib.Logic.Function.Iterate
import ProtoDecl.Proofs.Reading.View
import ProtoDecl.Schema.Parser

/-!
# What parsers yield

Two relations say what a parser does, and later proofs speak of parsers only through them.

* `Yields p c a d`: started at `c`, the parser `p` yields `a` and ends at `d`, whatever it reported
  on the way;
* `Reads p c a d`: the same, and nothing was reported.

Each way of building parsers has one lemma for either relation, read from left to right to take a
reading apart and from right to left to put one together.  `Reads` is the simpler of the two: a
parser gives up only after reporting, so in a reading without reports every part succeeded.

Repetition has its rules at the end: `loop_invariant` and `reads_loop` for loops, and
`recursive_eq_iterate` for parsers that call themselves.  The latter needs that the parser is
`Local`, calling itself only further on; everything that holds of a parser which always gives up,
and is kept by the step, then holds of the whole.
-/

namespace ProtoDecl.Schema.Parser

variable {α β σ : Type} {p : Parser α} {c d : Cursor} {a : α}

/-- Started at `c`, the parser yields `a` and ends at `d`. -/
def Yields (p : Parser α) (c : Cursor) (a : α) (d : Cursor) : Prop :=
  p.run c = (some a, d)

/-- Started at `c`, the parser yields `a`, ends at `d` and reports nothing. -/
def Reads (p : Parser α) (c : Cursor) (a : α) (d : Cursor) : Prop :=
  p.Yields c a d ∧ d.errors = c.errors

theorem Yields.leads (h : p.Yields c a d) : c.Leads d := by
  have := (p.fair c).leads
  rwa [h] at this

theorem Reads.leads (h : p.Reads c a d) : c.Leads d :=
  h.1.leads

/-- A parser that reports nothing has read something. -/
theorem reads_of_errors_eq (p : Parser α) (h : (p.run c).2.errors = c.errors) :
    ∃ a, p.Reads c a (p.run c).2 := by
  cases hr : (p.run c).1 with
  | none => exact absurd h ((p.fair c).reported hr)
  | some a => exact ⟨a, Prod.ext hr rfl, h⟩

/-- Errors are only added, so where none were in the end none were on the way. -/
theorem errors_eq_of_leads {e : Cursor} (h : c.Leads d) (h' : d.Leads e)
    (heq : e.errors = c.errors) : d.errors = c.errors ∧ e.errors = d.errors := by
  obtain ⟨m, a, rfl⟩ := h
  obtain ⟨n, b, rfl⟩ := h'
  have hnil : a = [] ∧ b = [] := by simpa using heq
  simp [hnil]

/-! ## Sequences -/

theorem yields_pure {b : α} : (pure a : Parser α).Yields c b d ↔ b = a ∧ d = c := by
  simp only [Yields, run_pure, Prod.mk.injEq, Option.some.injEq]
  exact and_congr eq_comm eq_comm

theorem yields_bind {f : α → Parser β} {b : β} :
    (p >>= f).Yields c b d ↔ ∃ a c', p.Yields c a c' ∧ (f a).Yields c' b d := by
  simp only [Yields, run_bind]
  constructor
  · intro h
    split at h
    · rename_i a c' ha
      exact ⟨a, c', ha, h⟩
    · simp at h
  · rintro ⟨a, c', ha, h⟩
    rw [ha]
    exact h

theorem reads_pure {b : α} : (pure a : Parser α).Reads c b d ↔ b = a ∧ d = c := by
  rw [Reads, yields_pure]
  exact ⟨And.left, fun h => ⟨h, by rw [h.2]⟩⟩

theorem reads_bind {f : α → Parser β} {b : β} :
    (p >>= f).Reads c b d ↔ ∃ a c', p.Reads c a c' ∧ (f a).Reads c' b d := by
  rw [Reads, yields_bind]
  constructor
  · rintro ⟨⟨a, c', ha, hb⟩, heq⟩
    have := errors_eq_of_leads ha.leads hb.leads heq
    exact ⟨a, c', ⟨ha, this.1⟩, hb, this.2⟩
  · rintro ⟨a, c', ha, hb⟩
    exact ⟨⟨a, c', ha.1, hb.1⟩, hb.2.trans ha.2⟩

theorem reads_bind_pure {f : α → β} {b : β} :
    (p >>= fun a => pure (f a)).Reads c b d ↔ ∃ a, p.Reads c a d ∧ b = f a := by
  rw [reads_bind]
  constructor
  · rintro ⟨a, c', ha, hb⟩
    obtain ⟨rfl, rfl⟩ := reads_pure.1 hb
    exact ⟨a, ha, rfl⟩
  · rintro ⟨a, ha, rfl⟩
    exact ⟨a, d, ha, reads_pure.2 ⟨rfl, rfl⟩⟩

/-- A parser that may give up: what it yielded, or that it led somewhere without a result. -/
theorem yields_attempt {o : Option α} :
    (attempt p).Yields c o d ↔ o = (p.run c).1 ∧ d = (p.run c).2 := by
  simp only [Yields, attempt, Prod.mk.injEq, Option.some.injEq]
  exact and_congr eq_comm eq_comm

theorem yields_attempt_cases {o : Option α} (h : (attempt p).Yields c o d) :
    c.Leads d ∧ ∀ a ∈ o, p.Yields c a d := by
  refine ⟨h.leads, fun a ha => ?_⟩
  rw [yields_attempt] at h
  exact Prod.ext (by rw [← h.1]; exact ha) h.2.symm

theorem reads_attempt {o : Option α} :
    (attempt p).Reads c o d ↔ ∃ a, o = some a ∧ p.Reads c a d := by
  rw [Reads, yields_attempt]
  constructor
  · rintro ⟨⟨rfl, rfl⟩, heq⟩
    obtain ⟨a, ha⟩ := reads_of_errors_eq p heq
    exact ⟨a, by rw [ha.1], ha⟩
  · rintro ⟨a, rfl, ha⟩
    exact ⟨by rw [ha.1]; exact ⟨rfl, rfl⟩, ha.2⟩

theorem yields_tolerate {u : Unit} : (tolerate p).Yields c u d ↔ d = (p.run c).2 := by
  simp only [Yields, tolerate, Prod.mk.injEq, true_and]
  exact eq_comm

theorem reads_tolerate {u : Unit} : (tolerate p).Reads c u d ↔ ∃ a, p.Reads c a d := by
  rw [Reads, yields_tolerate]
  constructor
  · rintro ⟨rfl, heq⟩
    exact reads_of_errors_eq p heq
  · rintro ⟨a, ha⟩
    exact ⟨by rw [ha.1], ha.2⟩

/-! ## Looking and moving -/

section
variable {k : Kind} {t : Token}

theorem yields_ask {f : Cursor → α} : (ask f).Yields c a d ↔ a = f c ∧ d = c := by
  simp only [Yields, ask, Prod.mk.injEq, Option.some.injEq]
  exact and_congr eq_comm eq_comm

theorem yields_current : current.Yields c t d ↔ t = c.current ∧ d = c :=
  yields_ask

theorem yields_kind : kind.Yields c k d ↔ k = c.current.kind ∧ d = c :=
  yields_ask

theorem yields_take : take.Yields c t d ↔ t = c.current ∧ d = c.advance := by
  simp only [Yields, take, Prod.mk.injEq, Option.some.injEq]
  exact and_congr eq_comm eq_comm

theorem yields_skip {u : Unit} : skip.Yields c u d ↔ d = c.advance := by
  simp only [Yields, skip, Prod.mk.injEq, true_and]
  exact eq_comm

theorem yields_accept {o : Option Token} :
    (accept k).Yields c o d ↔
      (c.current.kind = k ∧ o = some c.current ∧ d = c.advance) ∨
        (c.current.kind ≠ k ∧ o = none ∧ d = c) := by
  simp only [Yields, accept]
  by_cases h : c.current.kind = k
  · simp [h, eq_comm]
  · simp [h, eq_comm]

theorem yields_moving {b : Bool} :
    (moving p).Yields c (a, b) d ↔ p.Yields c a d ∧ b = (d.remaining != c.remaining) := by
  simp only [Yields, moving]
  cases h : p.run c with
  | mk o c' =>
    cases o with
    | none => simp
    | some a' =>
      simp only [Prod.mk.injEq, Option.some.injEq]
      constructor
      · rintro ⟨⟨rfl, rfl⟩, rfl⟩
        exact ⟨⟨rfl, rfl⟩, rfl⟩
      · rintro ⟨⟨rfl, rfl⟩, rfl⟩
        exact ⟨⟨rfl, rfl⟩, rfl⟩

theorem reads_ask {f : Cursor → α} : (ask f).Reads c a d ↔ a = f c ∧ d = c := by
  rw [Reads, yields_ask]
  exact ⟨And.left, fun h => ⟨h, by rw [h.2]⟩⟩

theorem reads_spanFrom {start s : Span} :
    (spanFrom start).Reads c s d ↔ s = c.spanFrom start ∧ d = c :=
  reads_ask

theorem reads_take : take.Reads c t d ↔ t = c.current ∧ d = c.advance := by
  rw [Reads, yields_take]
  exact ⟨And.left, fun h => ⟨h, by rw [h.2, Cursor.advance_errors]⟩⟩

theorem reads_skip {u : Unit} : skip.Reads c u d ↔ d = c.advance := by
  rw [Reads, yields_skip]
  exact ⟨And.left, fun h => ⟨h, by rw [h, Cursor.advance_errors]⟩⟩

theorem reads_ask_bind {γ : Type} {g : Cursor → γ} {f : γ → Parser α} :
    (ask g >>= f).Reads c a d ↔ (f (g c)).Reads c a d := by
  rw [reads_bind]
  constructor
  · rintro ⟨x, c', hx, h⟩
    obtain ⟨rfl, rfl⟩ := reads_ask.1 hx
    exact h
  · exact fun h => ⟨_, _, reads_ask.2 ⟨rfl, rfl⟩, h⟩

theorem reads_kind_bind {f : Kind → Parser α} :
    (kind >>= f).Reads c a d ↔ (f c.current.kind).Reads c a d :=
  reads_ask_bind

theorem reads_take_bind {f : Token → Parser α} :
    (take >>= f).Reads c a d ↔ (f c.current).Reads c.advance a d := by
  rw [reads_bind]
  constructor
  · rintro ⟨t, c', ht, h⟩
    obtain ⟨rfl, rfl⟩ := reads_take.1 ht
    exact h
  · exact fun h => ⟨_, _, reads_take.2 ⟨rfl, rfl⟩, h⟩

theorem reads_skip_bind {f : Unit → Parser α} :
    (skip >>= f).Reads c a d ↔ (f ()).Reads c.advance a d := by
  rw [reads_bind]
  constructor
  · rintro ⟨u, c', hu, h⟩
    obtain rfl := reads_skip.1 hu
    exact h
  · exact fun h => ⟨(), _, reads_skip.2 rfl, h⟩

theorem reads_accept {o : Option Token} :
    (accept k).Reads c o d ↔
      (c.current.kind = k ∧ o = some c.current ∧ d = c.advance) ∨
        (c.current.kind ≠ k ∧ o = none ∧ d = c) := by
  rw [Reads, yields_accept]
  refine ⟨And.left, fun h => ⟨h, ?_⟩⟩
  rcases h with ⟨-, -, rfl⟩ | ⟨-, -, rfl⟩
  · exact Cursor.advance_errors c
  · rfl

theorem reads_accept_bind {f : Option Token → Parser α} :
    (accept k >>= f).Reads c a d ↔
      if c.current.kind = k then (f (some c.current)).Reads c.advance a d
      else (f none).Reads c a d := by
  rw [reads_bind]
  constructor
  · rintro ⟨o, c', ho, h⟩
    rcases reads_accept.1 ho with ⟨hk, rfl, rfl⟩ | ⟨hk, rfl, rfl⟩
    · rwa [if_pos hk]
    · rwa [if_neg hk]
  · intro h
    split at h
    · exact ⟨_, _, reads_accept.2 (.inl ⟨‹_›, rfl, rfl⟩), h⟩
    · exact ⟨_, _, reads_accept.2 (.inr ⟨‹_›, rfl, rfl⟩), h⟩

theorem reads_moving {b : Bool} :
    (moving p).Reads c (a, b) d ↔ p.Reads c a d ∧ b = (d.remaining != c.remaining) := by
  rw [Reads, yields_moving, Reads]
  exact and_right_comm

end

/-! ## Reporting -/

section
variable {e : SyntaxError} {wanted : Wanted} {k : Kind} {t : Token}

theorem yields_complain {u : Unit} : (complain e).Yields c u d ↔ d = c.report e := by
  simp only [Yields, complain, Prod.mk.injEq, true_and]
  exact eq_comm

theorem yields_report {u : Unit} :
    (report wanted).Yields c u d ↔ d = c.report (.unexpected wanted c.current) := by
  simp only [Yields, report, Prod.mk.injEq, true_and]
  exact eq_comm

theorem not_yields_reject : ¬ (reject e : Parser α).Yields c a d := by
  simp [Yields, reject]

theorem not_yields_want : ¬ (want wanted : Parser α).Yields c a d := by
  rw [want, yields_bind]
  rintro ⟨t, c', -, h⟩
  exact not_yields_reject h

theorem yields_expectAs :
    (expectAs k wanted).Yields c t d ↔ c.current.kind = k ∧ t = c.current ∧ d = c.advance := by
  rw [expectAs, yields_bind]
  constructor
  · rintro ⟨o, c', ho, h⟩
    rcases yields_accept.1 ho with ⟨hk, rfl, rfl⟩ | ⟨-, rfl, -⟩
    · obtain ⟨rfl, rfl⟩ := yields_pure.1 h
      exact ⟨hk, rfl, rfl⟩
    · exact absurd h not_yields_want
  · rintro ⟨hk, rfl, rfl⟩
    exact ⟨_, _, yields_accept.2 (.inl ⟨hk, rfl, rfl⟩), yields_pure.2 ⟨rfl, rfl⟩⟩

theorem not_reads_complain {u : Unit} : ¬ (complain e).Reads c u d := by
  rintro ⟨h, heq⟩
  rw [yields_complain.1 h] at heq
  simp [Cursor.report] at heq

theorem not_reads_report {u : Unit} : ¬ (report wanted).Reads c u d := by
  rintro ⟨h, heq⟩
  rw [yields_report.1 h] at heq
  simp [Cursor.report] at heq

theorem not_reads_report_bind {f : Unit → Parser α} : ¬ (report wanted >>= f).Reads c a d := by
  rw [reads_bind]
  rintro ⟨u, c', hu, -⟩
  exact not_reads_report hu

theorem not_reads_reject : ¬ (reject e : Parser α).Reads c a d :=
  fun h => not_yields_reject h.1

theorem not_reads_want : ¬ (want wanted : Parser α).Reads c a d :=
  fun h => not_yields_want h.1

theorem reads_expectAs :
    (expectAs k wanted).Reads c t d ↔ c.current.kind = k ∧ t = c.current ∧ d = c.advance := by
  rw [Reads, yields_expectAs]
  exact ⟨And.left, fun h => ⟨h, by rw [h.2.2, Cursor.advance_errors]⟩⟩

end

/-! ## Loops -/

section
variable {round : σ → Parser (Round σ)} {s s' : σ}

/-- What every round keeps, and passing over a token too, the loop keeps. -/
theorem loop_invariant {P : σ → Cursor → Prop} (hskip : ∀ s c, P s c → P s c.advance)
    (hagain : ∀ s c s' d, P s c → (round s).Yields c (.again s') d → P s' d)
    (hdone : ∀ s c s' d, P s c → (round s).Yields c (.done s') d → P s' d)
    (h : (loop round s).Yields c s' d) (hP : P s c) : P s' d := by
  have hresume : ∀ s c next, P s next → P s (resume c next) := by
    intro s c next hnext
    unfold resume
    split
    · exact hskip s next hnext
    · exact hnext
  change rounds round s c = (some s', d) at h
  fun_induction rounds round s c with
  | case1 s c next hr => simp at h
  | case2 s c state next hr =>
    simp only [Prod.mk.injEq, Option.some.injEq] at h
    obtain ⟨rfl, rfl⟩ := h
    exact hdone s c _ _ hP hr
  | case3 s c state next hr hlt ih =>
    exact ih (hresume _ c _ (hagain s c _ _ hP hr)) h
  | case4 s c state next hr hlt =>
    simp only [Prod.mk.injEq, Option.some.injEq] at h
    obtain ⟨rfl, rfl⟩ := h
    exact hresume _ c _ (hagain s c _ _ hP hr)

/-- As long as a token is left, each round of a loop is followed by progress. -/
theorem remaining_resume_lt {next : Cursor} (h : c.Leads next) (hview : c.view ≠ []) :
    (resume c next).remaining < c.remaining := by
  unfold resume
  split
  · rename_i heq
    obtain ⟨n, new, rfl⟩ := h
    have hzero : n = 0 :=
      ((Cursor.remaining_after_eq_iff c n new).1 heq).resolve_right hview
    have hleft : (c.after n new).view ≠ [] := by
      rwa [Cursor.view_after, hzero, List.drop_zero]
    have hlt := (Cursor.remaining_advance_lt_iff (c.after n new)).2 hleft
    omega
  · rename_i hne
    exact Nat.lt_of_le_of_ne h.remaining_le hne

/-- A loop whose rounds go on only where a token is left ends with a last round, and what the rounds
before it keep holds there. -/
theorem loop_last {P : σ → Cursor → Prop} (hskip : ∀ s c, P s c → P s c.advance)
    (hview : ∀ s c s' d, (round s).Yields c (.again s') d → c.view ≠ [])
    (hagain : ∀ s c s' d, P s c → (round s).Yields c (.again s') d → P s' d)
    (h : (loop round s).Yields c s' d) (hP : P s c) :
    ∃ s₁ c₁, P s₁ c₁ ∧ (round s₁).Yields c₁ (.done s') d := by
  change rounds round s c = (some s', d) at h
  fun_induction rounds round s c with
  | case1 s c next hr => simp at h
  | case2 s c state next hr =>
    simp only [Prod.mk.injEq, Option.some.injEq] at h
    obtain ⟨rfl, rfl⟩ := h
    exact ⟨s, c, hP, hr⟩
  | case3 s c state next hr hlt ih =>
    have hnext : P state next := hagain s c state next hP hr
    refine ih ?_ h
    unfold resume
    split
    · exact hskip state next hnext
    · exact hnext
  | case4 s c state next hr hlt =>
    have hleads : c.Leads next := Yields.leads hr
    exact absurd (remaining_resume_lt hleads (hview s c state next hr)) hlt

theorem loop_ends (hagain : ∀ s c s' d, (round s).Yields c (.again s') d → c.view ≠ [])
    (h : (loop round s).Yields c s' d) : ∃ s₁ c₁, (round s₁).Yields c₁ (.done s') d := by
  obtain ⟨s₁, c₁, -, hlast⟩ := loop_last (P := fun _ _ => True) (fun _ _ _ => trivial) hagain
    (fun _ _ _ _ _ _ => trivial) h trivial
  exact ⟨s₁, c₁, hlast⟩

/-- A loop whose first round has read something goes on with the others. -/
theorem run_loop_again (h : (round s).Yields c (.again s') d) (hlt : d.remaining < c.remaining) :
    (loop round s).run c = (loop round s').run d := by
  have hround : (round s).run c = (some (.again s'), d) := h
  have hresume : resume c d = d := if_neg (Nat.ne_of_lt hlt)
  change rounds round s c = rounds round s' d
  rw [rounds, hround]
  dsimp only
  rw [hresume, if_pos hlt]

/-- A loop without reports is a last round, or a round that goes on and a loop.  No token is passed
over in silence, as long as every round without reports has read something. -/
theorem reads_loop
    (hprogress : ∀ s c s' d, (round s).Reads c (.again s') d → d.remaining < c.remaining) :
    (loop round s).Reads c s' d ↔ (round s).Reads c (.done s') d ∨
      ∃ s₁ c₁, (round s).Reads c (.again s₁) c₁ ∧ (loop round s₁).Reads c₁ s' d := by
  have hresume : ∀ s₁ c₁, (round s).Reads c (.again s₁) c₁ →
      resume c c₁ = c₁ ∧ c₁.remaining < c.remaining := by
    intro s₁ c₁ h
    have hlt := hprogress s c s₁ c₁ h
    exact ⟨if_neg (Nat.ne_of_lt hlt), hlt⟩
  constructor
  · rintro ⟨h, heq⟩
    have hround := (round s).fair c
    change rounds round s c = (some s', d) at h
    rw [rounds] at h
    split at h
    · simp at h
    · rename_i state next hr
      simp only [Prod.mk.injEq, Option.some.injEq] at h
      obtain ⟨rfl, rfl⟩ := h
      exact .inl ⟨hr, heq⟩
    · rename_i state next hr
      rw [hr] at hround
      have hnext : c.Leads next := hround.leads
      split at h
      · have hrest : (loop round state).Yields (resume c next) s' d := h
        have hon := (leads_resume c next).trans hrest.leads
        have hreads : (round s).Reads c (.again state) next :=
          ⟨hr, (errors_eq_of_leads hnext hon heq).1⟩
        rw [(hresume _ _ hreads).1] at hrest
        exact .inr ⟨state, next, hreads, hrest, (errors_eq_of_leads hnext hon heq).2⟩
      · rename_i hlt
        simp only [Prod.mk.injEq, Option.some.injEq] at h
        obtain ⟨-, rfl⟩ := h
        have hreads : (round s).Reads c (.again state) next :=
          ⟨hr, (errors_eq_of_leads hnext (leads_resume c next) heq).1⟩
        obtain ⟨he, hlt'⟩ := hresume _ _ hreads
        rw [he] at hlt
        exact absurd hlt' hlt
  · rintro (⟨h, heq⟩ | ⟨s₁, c₁, h, hrest, heq⟩)
    · refine ⟨?_, heq⟩
      change rounds round s c = _
      rw [rounds, h]
    · refine ⟨?_, heq.trans h.2⟩
      obtain ⟨he, hlt⟩ := hresume _ _ h
      change rounds round s c = _
      rw [rounds, h.1]
      simp only [he]
      rw [if_pos hlt]
      exact hrest

/-- Induction over the rounds of a loop without reports. -/
theorem Reads.loop_induct {P : σ → Cursor → σ → Cursor → Prop}
    (hprogress : ∀ s c s' d, (round s).Reads c (.again s') d → d.remaining < c.remaining)
    (hdone : ∀ s c s' d, (round s).Reads c (.done s') d → P s c s' d)
    (hagain : ∀ s c s₁ c₁ s' d, (round s).Reads c (.again s₁) c₁ → P s₁ c₁ s' d → P s c s' d)
    (h : (loop round s).Reads c s' d) : P s c s' d := by
  induction hn : c.remaining using Nat.strong_induction_on generalizing s c with
  | _ n ih =>
    subst hn
    rcases (reads_loop hprogress).1 h with hlast | ⟨s₁, c₁, hround, hrest⟩
    · exact hdone _ _ _ _ hlast
    · exact hagain _ _ _ _ _ _ hround (ih _ (hprogress _ _ _ _ hround) hrest rfl)

end

/-! ## Parsers that call themselves -/

/-- Whether what `step p` reads at a cursor depends only on what `p` reads further on. -/
def Local (step : Parser α → Parser α) : Prop :=
  ∀ p q c, (∀ d, d.remaining < c.remaining → p.run d = q.run d) → (step p).run c = (step q).run c

/-- A local step repeated more often than there are tokens reads what the recursion does. -/
theorem recursive_eq_iterate {step : Parser α → Parser α} (hlocal : Local step) (wanted : Wanted)
    (n : Nat) (c : Cursor) (h : c.remaining < n) :
    (recursive wanted step).run c = (step^[n] (want wanted)).run c := by
  induction n generalizing c with
  | zero => omega
  | succ n ih =>
    change (unroll wanted step c).1 = _
    rw [unroll, Function.iterate_succ_apply']
    refine hlocal _ _ c fun d hd => ?_
    have hinner := ih d (by omega)
    change (if _h : d.remaining < c.remaining then (unroll wanted step d).1 else _) = _
    rw [dif_pos hd]
    exact hinner

/-- What holds of giving up, and is kept by the step, holds of the recursion. -/
theorem recursive_induct {step : Parser α → Parser α} (hlocal : Local step) (wanted : Wanted)
    {P : Cursor → Option α × Cursor → Prop} (hwant : ∀ c, P c ((want wanted : Parser α).run c))
    (hstep : ∀ p : Parser α, (∀ c, P c (p.run c)) → ∀ c, P c ((step p).run c)) (c : Cursor) :
    P c ((recursive wanted step).run c) := by
  have hiterate : ∀ n c, P c ((step^[n] (want wanted)).run c) := by
    intro n
    induction n with
    | zero => exact hwant
    | succ n ih =>
      rw [Function.iterate_succ_apply']
      exact hstep _ ih
  rw [recursive_eq_iterate hlocal wanted (c.remaining + 1) c (Nat.lt_succ_self _)]
  exact hiterate _ c

/-- Recursion is never deeper than there are tokens: what would be read at a greater depth does not
matter. -/
theorem iterate_eq_recursive {step : Parser α → Parser α} (hlocal : Local step) (wanted : Wanted)
    (base : Parser α) {n : Nat} (h : c.remaining < n) :
    (step^[n] base).run c = (recursive wanted step).run c := by
  have hbase : ∀ m c, c.remaining < m → (step^[m] base).run c = (step^[m] (want wanted)).run c := by
    intro m
    induction m with
    | zero => exact fun c hc => absurd hc (Nat.not_lt_zero _)
    | succ m ih =>
      intro c hc
      rw [Function.iterate_succ_apply', Function.iterate_succ_apply']
      exact hlocal _ _ c fun d hd => ih d (by omega)
  rw [hbase n c h, recursive_eq_iterate hlocal wanted n c h]

/-- The parser that a local step describes in terms of itself is the step applied to it. -/
theorem recursive_eq_step {step : Parser α → Parser α} (hlocal : Local step) (wanted : Wanted)
    (c : Cursor) : (recursive wanted step).run c = (step (recursive wanted step)).run c := by
  rw [recursive_eq_iterate hlocal wanted (c.remaining + 1) c (Nat.lt_succ_self _),
    Function.iterate_succ_apply']
  exact hlocal _ _ c fun d hd => iterate_eq_recursive hlocal wanted _ hd

/-! ### Which steps are local -/

theorem run_bind_congr {q : Parser α} {f g : α → Parser β} (hp : p.run c = q.run c)
    (hf : ∀ a c', p.Yields c a c' → (f a).run c' = (g a).run c') :
    (p >>= f).run c = (q >>= g).run c := by
  rw [run_bind, run_bind, ← hp]
  split
  · rename_i a c' h
    exact hf a c' h
  · rfl

theorem run_attempt_congr {q : Parser α} (h : p.run c = q.run c) :
    (attempt p).run c = (attempt q).run c := by
  change (some (p.run c).1, (p.run c).2) = (some (q.run c).1, (q.run c).2)
  rw [h]

theorem run_loop_congr {round round' : σ → Parser (Round σ)} {s : σ}
    (h : ∀ s d, c.Leads d → (round s).run d = (round' s).run d) :
    (loop round s).run c = (loop round' s).run c := by
  change rounds round s c = rounds round' s c
  fun_induction rounds round s c with
  | case1 s c next hr =>
    rw [rounds, ← h s c (.refl c), hr]
  | case2 s c state next hr =>
    rw [rounds, ← h s c (.refl c), hr]
  | case3 s c state next hr hlt ih =>
    have hnext : c.Leads next := by
      have := ((round s).fair c).leads
      rwa [hr] at this
    rw [rounds.eq_def round' s c, ← h s c (.refl c), hr]
    simp only
    rw [if_pos hlt]
    exact ih fun s d hd => h s d ((hnext.trans (leads_resume c next)).trans hd)
  | case4 s c state next hr hlt =>
    rw [rounds, ← h s c (.refl c), hr]
    simp only
    rw [if_neg hlt]

theorem run_block_congr {closing : String} {statement statement' : σ → Parser σ} {s : σ}
    (h : ∀ s d, c.Leads d → (statement s).run d = (statement' s).run d) :
    (block closing statement s).run c = (block closing statement' s).run c := by
  refine run_loop_congr fun s d hd => ?_
  refine run_bind_congr rfl fun k c' hk => ?_
  split <;> try rfl
  rw [(yields_kind.1 hk).2]
  exact run_bind_congr (h s d hd) fun _ _ _ => rfl

theorem run_body_congr {opening closing : String} {statement statement' : σ → Parser σ} {s : σ}
    (h : ∀ s d, c.Leads d → (statement s).run d = (statement' s).run d) :
    (body opening closing statement s).run c = (body opening closing statement' s).run c := by
  refine run_bind_congr rfl fun o c' ho => ?_
  cases o with
  | none => rfl
  | some t => exact run_block_congr fun s d hd => h s d (ho.leads.trans hd)

end ProtoDecl.Schema.Parser
