import ProtoDecl.Schema.Cursor

/-!
# Parsers

A parser reads from a cursor.  It may give up without a result; what it has read and reported by
then stands, so whoever called it can go on from there.  Two things hold of every parser, and its
type says so: it only reads on and reports (`Cursor.Leads`), and it gives up only after reporting
something.

* `Parser`, with its monad structure: a step that gives up ends the sequence;
* looking and moving: `current`, `take`, `skip`, `accept`;
* reporting: `report`, `reject`, `want`, `expect`;
* `attempt`, which turns giving up into a value, and `moving`, which says whether anything was read;
* `loop` and `recursive`, the two forms of repetition.  Both end because every round and every inner
  call has to have read something;
* `block` and `body`, the statements between braces.
-/

namespace ProtoDecl.Schema

/-- What every reading from `c` keeps to: it leads onward, and giving up is reported. -/
structure Fair {α : Type} (c : Cursor) (out : Option α × Cursor) : Prop where
  leads : c.Leads out.2
  reported : out.1 = none → out.2.errors ≠ c.errors

theorem Fair.some {α : Type} {c d : Cursor} (h : c.Leads d) (a : α) : Fair c (Option.some a, d) :=
  ⟨h, nofun⟩

/-- What a reading from a later cursor keeps to, it keeps to from an earlier one. -/
theorem Fair.after {α : Type} {c d : Cursor} {out : Option α × Cursor} (h : c.Leads d)
    (hout : Fair d out) : Fair c out := by
  refine ⟨h.trans hout.leads, fun hnone heq => hout.reported hnone ?_⟩
  obtain ⟨m, a, rfl⟩ := h
  obtain ⟨n, b, hb⟩ := hout.leads
  rw [hb] at heq ⊢
  simp only [Cursor.after_errors, List.append_assoc] at heq ⊢
  have : a ++ b = [] := by simpa using heq
  simp_all

/-- A reading of tokens that yields a result or gives up. -/
structure Parser (α : Type) where
  /-- The result, if there is one, and where the reading ended. -/
  run : Cursor → Option α × Cursor
  fair : ∀ c, Fair c (run c)

namespace Parser

variable {α β σ : Type}

/-- Runs a parser, and then the one that its result calls for. -/
def andThen (p : Parser α) (f : α → Parser β) : Parser β where
  run c :=
    match p.run c with
    | (some a, c') => (f a).run c'
    | (none, c') => (none, c')
  fair c := by
    have hp := p.fair c
    split
    · rename_i a c' h
      rw [h] at hp
      exact .after hp.leads ((f a).fair c')
    · rename_i c' h
      rw [h] at hp
      exact ⟨hp.leads, fun _ => hp.reported rfl⟩

/-- Reads nothing. -/
def yielding (a : α) : Parser α where
  run c := (some a, c)
  fair c := .some (.refl c) a

instance : Monad Parser where
  pure := yielding
  bind := andThen

theorem run_pure (a : α) (c : Cursor) : (pure a : Parser α).run c = (some a, c) :=
  rfl

theorem run_bind (p : Parser α) (f : α → Parser β) (c : Cursor) :
    (p >>= f).run c = match p.run c with
      | (some a, c') => (f a).run c'
      | (none, c') => (none, c') :=
  rfl

/-- Runs a parser, and yields nothing where it gives up. -/
def attempt (p : Parser α) : Parser (Option α) where
  run c := (some (p.run c).1, (p.run c).2)
  fair c := .some (p.fair c).leads _

/-- Runs a parser, and goes on in any case. -/
def tolerate (p : Parser α) : Parser Unit where
  run c := (some (), (p.run c).2)
  fair c := .some (p.fair c).leads ()

/-! ## Looking and moving -/

/-- What a function of the cursor says here. -/
def ask (f : Cursor → α) : Parser α where
  run c := (some (f c), c)
  fair c := .some (.refl c) _

/-- The next token. -/
def current : Parser Token :=
  ask Cursor.current

/-- The kind of the next token. -/
def kind : Parser Kind :=
  ask fun c => c.current.kind

/-- Reads one token. -/
def take : Parser Token where
  run c := (some c.current, c.advance)
  fair c := .some c.leads_advance _

/-- Passes over one token. -/
def skip : Parser Unit where
  run c := (some (), c.advance)
  fair c := .some c.leads_advance ()

/-- Reads a token of the given kind, if one is next. -/
def accept (kind : Kind) : Parser (Option Token) where
  run c := if c.current.kind = kind then (some (some c.current), c.advance) else (some none, c)
  fair c := by
    split
    · exact .some c.leads_advance _
    · exact .some (.refl c) _

/-- The span from `start` through the last token read. -/
def spanFrom (start : Span) : Parser Span :=
  ask fun c => c.spanFrom start

/-- Runs a parser, and says beside its result whether it read anything. -/
def moving (p : Parser α) : Parser (α × Bool) where
  run c :=
    match p.run c with
    | (some a, c') => (some (a, c'.remaining != c.remaining), c')
    | (none, c') => (none, c')
  fair c := by
    have hp := p.fair c
    split
    · rename_i h
      rw [h] at hp
      exact .some hp.leads _
    · rename_i h
      rw [h] at hp
      exact ⟨hp.leads, fun _ => hp.reported rfl⟩

/-! ## Reporting -/

/-- Reports an error. -/
def complain (e : SyntaxError) : Parser Unit where
  run c := (some (), c.report e)
  fair c := .some (c.leads_report e) ()

/-- Reports that something else than the next token was wanted. -/
def report (wanted : Wanted) : Parser Unit where
  run c := (some (), c.report (.unexpected wanted c.current))
  fair c := .some (c.leads_report _) ()

/-- Reports an error, and gives up. -/
def reject (e : SyntaxError) : Parser α where
  run c := (none, c.report e)
  fair c := ⟨c.leads_report e, fun _ => by simp [Cursor.report]⟩

/-- Reports that something else than the next token was wanted, and gives up. -/
def want (wanted : Wanted) : Parser α := do
  reject (.unexpected wanted (← current))

/-- Reads a token of the given kind, which is wanted here. -/
def expectAs (kind : Kind) (wanted : Wanted) : Parser Token := do
  match ← accept kind with
  | some t => return t
  | none => want wanted

/-- Reads a token of the given kind; `point` says where it is wanted. -/
def expect (kind : Kind) (point : String) : Parser Token :=
  expectAs kind (.token kind point)

/-! ## Repetition -/

/-- What a round of a loop decides. -/
inductive Round (σ : Type) where
  | again (state : σ)
  | done (state : σ)

/-- Where a round begun at `c` goes on, if it ended at `next`: a round that read no token is
followed by passing over one. -/
def resume (c next : Cursor) : Cursor :=
  if next.remaining = c.remaining then next.advance else next

theorem leads_resume (c next : Cursor) : next.Leads (resume c next) := by
  unfold resume
  split
  · exact next.leads_advance
  · exact .refl next

/-- The rounds of a loop from `c` on.  Where not even a token can be passed over, at the end of the
file, the loop ends. -/
def rounds (round : σ → Parser (Round σ)) (state : σ) (c : Cursor) : Option σ × Cursor :=
  match (round state).run c with
  | (none, next) => (none, next)
  | (some (.done state), next) => (some state, next)
  | (some (.again state), next) =>
    if (resume c next).remaining < c.remaining then rounds round state (resume c next)
    else (some state, resume c next)
termination_by c.remaining

theorem rounds_fair (round : σ → Parser (Round σ)) (state : σ) (c : Cursor) :
    Fair c (rounds round state c) := by
  fun_induction rounds round state c with
  | case1 state c next h =>
    have hr := (round state).fair c
    rw [h] at hr
    exact ⟨hr.leads, fun _ => hr.reported rfl⟩
  | case2 state c state' next h =>
    have hr := (round state).fair c
    rw [h] at hr
    exact .some hr.leads _
  | case3 state c state' next h _ ih =>
    have hr := (round state).fair c
    rw [h] at hr
    exact .after (hr.leads.trans (leads_resume c next)) ih
  | case4 state c state' next h _ =>
    have hr := (round state).fair c
    rw [h] at hr
    exact .some (hr.leads.trans (leads_resume c next)) _

/-- Repeats a round until it is done. -/
def loop (round : σ → Parser (Round σ)) (state : σ) : Parser σ where
  run := rounds round state
  fair := rounds_fair round state

/-- What the parser that `step` describes in terms of itself reads from `c`. -/
def unroll (wanted : Wanted) (step : Parser α → Parser α) (c : Cursor) :
    { out : Option α × Cursor // Fair c out } :=
  let inner : Parser α :=
    { run := fun d =>
        if _h : d.remaining < c.remaining then (unroll wanted step d).1 else (want wanted).run d
      fair := fun d => by
        split
        · exact (unroll wanted step d).2
        · exact (want wanted).fair d }
  ⟨(step inner).run c, (step inner).fair c⟩
termination_by c.remaining

/-- The parser that `step` describes in terms of itself.  An inner call has to stand further on than
the outer one; otherwise `wanted` is what is missing. -/
def recursive (wanted : Wanted) (step : Parser α → Parser α) : Parser α where
  run c := (unroll wanted step c).1
  fair c := (unroll wanted step c).2

/-! ## Statements between braces -/

/-- The next statement before a closing brace, or that brace.  Lone semicolons are empty
statements. -/
def blockEntry (closing : String) (statement : σ → Parser σ) (state : σ) : Parser (Round σ) := do
  match ← kind with
  | .symbol .closeBrace =>
    skip
    return .done state
  | .endOfFile =>
    report (.token (.symbol .closeBrace) closing)
    return .done state
  | .symbol .semicolon =>
    skip
    return .again state
  | _ => return .again (← statement state)

/-- Statements up to a closing brace. -/
def block (closing : String) (statement : σ → Parser σ) : σ → Parser σ :=
  loop (blockEntry closing statement)

/-- An opening brace and the statements up to the closing one; `opening` and `closing` say where the
braces are wanted.  Without the opening brace there are no statements. -/
def body (opening closing : String) (statement : σ → Parser σ) (state : σ) : Parser σ := do
  match ← attempt (expect (.symbol .openBrace) opening) with
  | some _ => block closing statement state
  | none => return state

end Parser

end ProtoDecl.Schema
