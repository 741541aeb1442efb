import ProtoDecl.Proofs.Layout.Sight
import ProtoDecl.Proofs.Reading.Logic

/-!
# Readings that agree

Two cursors are similar under a sight if the same is seen of the tokens in their views.  The lists
they stand in may differ in everything else: comments, and whatever follows the end of the file.

Two parsers agree under a sight if from similar cursors they move in step, over equally many tokens,
and the same is seen of what they yield and report.  Every way of building parsers keeps agreement,
so a parser agrees with itself as soon as its parts do.

The count of tokens is part of the definition because loops compare places in the list.  Similar
cursors have different places, but a reading from either has moved on exactly if the other has
(`Step.progress_iff`).
-/

namespace ProtoDecl.Schema

/-- The same is seen of the tokens ahead. -/
structure Similar (S : Sight) (c d : Cursor) : Prop where
  view : c.view.map S.token = d.view.map S.token
  eof : S.token c.eof = S.token d.eof
  lastEnd : S.near c.lastEnd d.lastEnd

/-- `c` and `d` move to `c'` and `d'` over equally many tokens, and the same is seen of the errors
reported. -/
def Step (S : Sight) (c d c' d' : Cursor) : Prop :=
  ∃ n new new', c' = c.after n new ∧ d' = d.after n new' ∧ seen S new = seen S new'

variable {S : Sight} {c d : Cursor} {α β σ : Type} [Seen α] [Seen β] [Seen σ]

namespace Similar

theorem current (h : Similar S c d) : S.token c.current = S.token d.current := by
  have hview := h.view
  rw [Cursor.current_eq, Cursor.current_eq]
  cases hc : c.view <;> cases hd : d.view <;> rw [hc, hd] at hview
  · exact h.eof
  · simp at hview
  · simp at hview
  · simp only [List.map_cons, List.cons.injEq] at hview
    exact hview.1

theorem kind (h : Similar S c d) : c.current.kind = d.current.kind := by
  rw [← S.token_kind, h.current, S.token_kind]

theorem span (h : Similar S c d) : S.span c.current.span = S.span d.current.span := by
  rw [← S.token_span, h.current, S.token_span]

theorem view_eq_nil_iff (h : Similar S c d) : c.view = [] ↔ d.view = [] := by
  have := congrArg List.length h.view
  simp only [List.length_map] at this
  rw [← List.length_eq_zero_iff, ← List.length_eq_zero_iff, this]

theorem advance (h : Similar S c d) : Similar S c.advance d.advance := by
  refine ⟨?_, ?_, ?_⟩
  · rw [Cursor.view_advance, Cursor.view_advance, List.map_tail, List.map_tail, h.view]
  · rw [Cursor.eof_advance, Cursor.eof_advance, h.eof]
  · have hview := h.view
    rw [Cursor.lastEnd_advance, Cursor.lastEnd_advance]
    cases hc : c.view <;> cases hd : d.view <;> rw [hc, hd] at hview
    · exact h.lastEnd
    · simp at hview
    · simp at hview
    · simp only [List.map_cons, List.cons.injEq] at hview
      refine S.near_stop ?_
      rw [← S.token_span, hview.1, S.token_span]

theorem after (h : Similar S c d) (n : Nat) (new new' : List SyntaxError) :
    Similar S (c.after n new) (d.after n new') := by
  have hpassing : Similar S (c.passing n) (d.passing n) := by
    induction n generalizing c d with
    | zero => exact h
    | succ n ih => exact ih h.advance
  exact ⟨hpassing.view, hpassing.eof, hpassing.lastEnd⟩

end Similar

namespace Step

theorem refl (S : Sight) (c d : Cursor) : Step S c d c d :=
  ⟨0, [], [], c.after_zero.symm, d.after_zero.symm, rfl⟩

theorem advance (S : Sight) (c d : Cursor) : Step S c d c.advance d.advance :=
  ⟨1, [], [], c.after_one.symm, d.after_one.symm, rfl⟩

theorem report {e e' : SyntaxError} (h : seen S e = seen S e') :
    Step S c d (c.report e) (d.report e') :=
  ⟨0, [e], [e'], rfl, rfl, by simp [h]⟩

variable {c' d' c'' d'' : Cursor}

theorem trans (h : Step S c d c' d') (h' : Step S c' d' c'' d'') : Step S c d c'' d'' := by
  obtain ⟨m, a, a', rfl, rfl, ha⟩ := h
  obtain ⟨n, b, b', rfl, rfl, hb⟩ := h'
  refine ⟨m + n, a ++ b, a' ++ b', Cursor.after_after .., Cursor.after_after .., ?_⟩
  rw [seen_append, seen_append, ha, hb]

theorem similar (h : Step S c d c' d') (hcd : Similar S c d) : Similar S c' d' := by
  obtain ⟨n, new, new', rfl, rfl, -⟩ := h
  exact hcd.after n new new'

theorem progress_iff (h : Step S c d c' d') (hcd : Similar S c d) :
    c'.remaining < c.remaining ↔ d'.remaining < d.remaining := by
  obtain ⟨n, new, new', rfl, rfl, -⟩ := h
  rw [Cursor.remaining_after_lt_iff, Cursor.remaining_after_lt_iff, ne_eq, ne_eq,
    hcd.view_eq_nil_iff]

theorem standstill_iff (h : Step S c d c' d') (hcd : Similar S c d) :
    c'.remaining = c.remaining ↔ d'.remaining = d.remaining := by
  obtain ⟨n, new, new', rfl, rfl, -⟩ := h
  rw [Cursor.remaining_after_eq_iff, Cursor.remaining_after_eq_iff, hcd.view_eq_nil_iff]

end Step

namespace Parser

/-- The same is seen of what `p` reads from `c` and `q` from `d`. -/
def AgreeAt (S : Sight) (p q : Parser α) (c d : Cursor) : Prop :=
  seen S (p.run c).1 = seen S (q.run d).1 ∧ Step S c d (p.run c).2 (q.run d).2

/-- The two parsers read the same from similar cursors. -/
def Agree (S : Sight) (p q : Parser α) : Prop :=
  ∀ c d, Similar S c d → AgreeAt S p q c d

/-- The rule for sequences where it matters what the first parser yielded, and from where. -/
theorem AgreeAt.bind {p q : Parser α} {f g : α → Parser β} (hcd : Similar S c d)
    (hp : AgreeAt S p q c d)
    (hf : ∀ a b c' d', p.Yields c a c' → q.Yields d b d' → seen S a = seen S b →
      Similar S c' d' → AgreeAt S (f a) (g b) c' d') :
    AgreeAt S (p >>= f) (q >>= g) c d := by
  obtain ⟨hr, hs⟩ := hp
  rw [AgreeAt, run_bind, run_bind]
  rcases hpc : p.run c with ⟨_ | a, c'⟩ <;> rcases hqd : q.run d with ⟨_ | b, d'⟩ <;>
    simp only [hpc, hqd] at hr hs ⊢
  · exact ⟨trivial, hs⟩
  · simp at hr
  · simp at hr
  · obtain ⟨hr', hs'⟩ := hf a b c' d' hpc hqd (by simpa using hr) (hs.similar hcd)
    exact ⟨hr', hs.trans hs'⟩

namespace Agree

/-! ## Sequences -/

theorem pure {a b : α} (h : seen S a = seen S b) :
    Agree S (Pure.pure a : Parser α) (Pure.pure b) := by
  intro c d _
  refine ⟨?_, Step.refl S c d⟩
  rw [run_pure, run_pure, seen_some, seen_some, h]

theorem bind {p q : Parser α} {f g : α → Parser β} (hp : Agree S p q)
    (hf : ∀ a b, seen S a = seen S b → Agree S (f a) (g b)) : Agree S (p >>= f) (q >>= g) :=
  fun c d hcd => .bind hcd (hp c d hcd) fun a b c' d' _ _ hab => hf a b hab c' d'

theorem attempt {p q : Parser α} (hp : Agree S p q) : Agree S (attempt p) (attempt q) := by
  intro c d hcd
  obtain ⟨hr, hs⟩ := hp c d hcd
  exact ⟨by simpa [Parser.attempt] using hr, hs⟩

theorem tolerate {p q : Parser α} (hp : Agree S p q) : Agree S (tolerate p) (tolerate q) := by
  intro c d hcd
  exact ⟨rfl, (hp c d hcd).2⟩

theorem ite {P Q : Prop} [Decidable P] [Decidable Q] {p q p' q' : Parser α} (hPQ : P ↔ Q)
    (h : Agree S p p') (h' : Agree S q q') :
    Agree S (if P then p else q) (if Q then p' else q') := by
  by_cases hP : P
  · rw [if_pos hP, if_pos (hPQ.1 hP)]
    exact h
  · rw [if_neg hP, if_neg (hP ∘ hPQ.2)]
    exact h'

/-! ## Looking and moving -/

theorem ask {f g : Cursor → α} (h : ∀ c d, Similar S c d → seen S (f c) = seen S (g d)) :
    Agree S (ask f) (ask g) := by
  intro c d hcd
  refine ⟨?_, Step.refl S c d⟩
  simpa [Parser.ask] using h c d hcd

theorem current : Agree S current current :=
  ask fun _ _ h => h.current

theorem kind : Agree S kind kind :=
  ask fun _ _ h => h.kind

theorem take : Agree S take take := by
  intro c d hcd
  refine ⟨?_, Step.advance S c d⟩
  simpa [Parser.take] using hcd.current

theorem skip : Agree S skip skip :=
  fun c d _ => ⟨rfl, Step.advance S c d⟩

theorem accept (k : Kind) : Agree S (accept k) (accept k) := by
  intro c d hcd
  simp only [AgreeAt, Parser.accept, hcd.kind]
  split
  · exact ⟨by simpa using hcd.current, Step.advance S c d⟩
  · exact ⟨rfl, Step.refl S c d⟩

theorem spanFrom {a b : Span} (h : S.span a = S.span b) : Agree S (spanFrom a) (spanFrom b) :=
  ask fun _ _ hcd => S.span_extendTo h hcd.lastEnd

theorem moving {p q : Parser α} (hp : Agree S p q) : Agree S (moving p) (moving q) := by
  intro c d hcd
  obtain ⟨hr, hs⟩ := hp c d hcd
  have hstill := hs.standstill_iff hcd
  simp only [AgreeAt, Parser.moving]
  rcases hpc : p.run c with ⟨_ | a, c'⟩ <;> rcases hqd : q.run d with ⟨_ | b, d'⟩ <;>
    simp only [hpc, hqd] at hr hs hstill ⊢
  · exact ⟨trivial, hs⟩
  · simp at hr
  · simp at hr
  · refine ⟨?_, hs⟩
    have hb : (c'.remaining != c.remaining) = (d'.remaining != d.remaining) := by
      rw [Bool.eq_iff_iff]
      simp [hstill]
    simp only [seen_some, Option.some.injEq] at hr
    simp [hr, hb]

/-! ## Reporting -/

theorem complain {e e' : SyntaxError} (h : seen S e = seen S e') :
    Agree S (complain e) (complain e') :=
  fun _ _ _ => ⟨rfl, Step.report h⟩

theorem report (wanted : Wanted) : Agree S (report wanted) (report wanted) :=
  fun _ _ hcd => ⟨rfl, Step.report (congrArg (SyntaxError.unexpected wanted) hcd.current)⟩

theorem reject {e e' : SyntaxError} (h : seen S e = seen S e') :
    Agree S (reject e : Parser α) (reject e') :=
  fun _ _ _ => ⟨rfl, Step.report h⟩

theorem want (wanted : Wanted) : Agree S (want wanted : Parser α) (want wanted) :=
  bind current fun _ _ h => reject (congrArg (SyntaxError.unexpected wanted) h)

theorem expectAs (k : Kind) (wanted : Wanted) :
    Agree S (expectAs k wanted) (expectAs k wanted) := by
  refine bind (accept k) fun o o' ho => ?_
  cases o <;> cases o'
  · exact want wanted
  · simp at ho
  · simp at ho
  · exact pure (by simpa using ho)

theorem expect (k : Kind) (point : String) : Agree S (expect k point) (expect k point) :=
  expectAs k _

/-! ## Sequences that rely on the kind of a token

Values are seen of all tokens but the one that ends the file, so what is made of a value needs that
the token is of another kind. -/

theorem kind_bind {f g : Kind → Parser α}
    (h : ∀ k c d, Similar S c d → c.current.kind = k → AgreeAt S (f k) (g k) c d) :
    Agree S (Parser.kind >>= f) (Parser.kind >>= g) := by
  intro c d hcd
  refine .bind hcd (kind c d hcd) fun k k' c' d' hk _ hkk' hcd' => ?_
  obtain ⟨rfl, hc'⟩ := yields_kind.1 hk
  cases (show c.current.kind = k' from hkk')
  exact h _ c' d' hcd' (by rw [hc'])

theorem take_bind {f g : Token → Parser α} (hcd : Similar S c d)
    (hk : c.current.kind ≠ .endOfFile)
    (h : ∀ t u, S.token t = S.token u → t.value = u.value → Agree S (f t) (g u)) :
    AgreeAt S (Parser.take >>= f) (Parser.take >>= g) c d := by
  refine .bind hcd (take c d hcd) fun t u c' d' ht _ htu => ?_
  obtain ⟨rfl, -⟩ := yields_take.1 ht
  exact h _ u htu (Sight.value_eq htu hk) c' d'

theorem expectAs_bind {k : Kind} (hk : k ≠ .endOfFile) (wanted : Wanted) {f g : Token → Parser α}
    (h : ∀ t u, S.token t = S.token u → t.value = u.value → Agree S (f t) (g u)) :
    Agree S (Parser.expectAs k wanted >>= f) (Parser.expectAs k wanted >>= g) := by
  intro c d hcd
  refine .bind hcd (expectAs k wanted c d hcd) fun t u c' d' ht _ htu => ?_
  obtain ⟨hkind, rfl, -⟩ := yields_expectAs.1 ht
  exact h _ u htu (Sight.value_eq htu (hkind ▸ hk)) c' d'

/-! ## Repetition -/

theorem resume {c' d' : Cursor} (h : Step S c d c' d') (hcd : Similar S c d) :
    Step S c d (resume c c') (resume d d') := by
  have hstill := h.standstill_iff hcd
  by_cases hc : c'.remaining = c.remaining
  · rw [Parser.resume, Parser.resume, if_pos hc, if_pos (hstill.1 hc)]
    exact h.trans (Step.advance S c' d')
  · rw [Parser.resume, Parser.resume, if_neg hc, if_neg (hc ∘ hstill.2)]
    exact h

theorem loop {round round' : σ → Parser (Round σ)}
    (h : ∀ s s', seen S s = seen S s' → Agree S (round s) (round' s')) {s s' : σ}
    (hs : seen S s = seen S s') : Agree S (loop round s) (loop round' s') := by
  intro c d hcd
  change seen S (rounds round s c).1 = seen S (rounds round' s' d).1 ∧
    Step S c d (rounds round s c).2 (rounds round' s' d).2
  -- The rounds go in step, so the recursion of the first loop is that of the second.
  fun_induction rounds round s c generalizing s' d with
  | case1 s c next hr =>
    obtain ⟨hv, hm⟩ := h s s' hs c d hcd
    rw [hr] at hv hm
    rw [rounds]
    rcases hd : (round' s').run d with ⟨_ | _, d'⟩ <;> rw [hd] at hv hm
    · exact ⟨rfl, hm⟩
    · simp at hv
  | case2 s c state next hr =>
    obtain ⟨hv, hm⟩ := h s s' hs c d hcd
    rw [hr] at hv hm
    rw [rounds]
    rcases hd : (round' s').run d with ⟨_ | _ | state', d'⟩ <;> rw [hd] at hv hm
    · simp at hv
    · simp at hv
    · exact ⟨by simpa using hv, hm⟩
  | case3 s c state next hr hlt ih =>
    obtain ⟨hv, hm⟩ := h s s' hs c d hcd
    rw [hr] at hv hm
    rw [rounds.eq_def round' s' d]
    rcases hd : (round' s').run d with ⟨_ | state' | _, d'⟩ <;> rw [hd] at hv hm
    · simp at hv
    · have hon := resume hm hcd
      simp only
      rw [if_pos ((hon.progress_iff hcd).1 hlt)]
      obtain ⟨hv', hm'⟩ := ih (by simpa using hv) (Parser.resume d d') (hon.similar hcd)
      exact ⟨hv', hon.trans hm'⟩
    · simp at hv
  | case4 s c state next hr hlt =>
    obtain ⟨hv, hm⟩ := h s s' hs c d hcd
    rw [hr] at hv hm
    rw [rounds.eq_def round' s' d]
    rcases hd : (round' s').run d with ⟨_ | state' | _, d'⟩ <;> rw [hd] at hv hm
    · simp at hv
    · have hon := resume hm hcd
      simp only
      rw [if_neg (fun hlt' => hlt ((hon.progress_iff hcd).2 hlt'))]
      exact ⟨by simpa using hv, hon⟩
    · simp at hv

theorem recursive {step : Parser α → Parser α} (hlocal : Local step) (wanted : Wanted)
    (h : ∀ p, Agree S p p → Agree S (step p) (step p)) :
    Agree S (recursive wanted step) (recursive wanted step) := by
  intro c d hcd
  -- The same number of steps serves both cursors.
  have hiterate : ∀ n, Agree S (step^[n] (Parser.want wanted)) (step^[n] (Parser.want wanted)) := by
    intro n
    induction n with
    | zero => exact want wanted
    | succ n ih =>
      rw [Function.iterate_succ_apply']
      exact h _ ih
  have hrun := recursive_eq_iterate hlocal wanted (max c.remaining d.remaining + 1)
  rw [AgreeAt, hrun c (by omega), hrun d (by omega)]
  exact hiterate _ c d hcd

theorem block (closing closing' : String) (hclosing : closing = closing')
    {statement statement' : σ → Parser σ}
    (h : ∀ s s', seen S s = seen S s' → Agree S (statement s) (statement' s')) {s s' : σ}
    (hs : seen S s = seen S s') :
    Agree S (block closing statement s) (block closing' statement' s') := by
  subst hclosing
  refine loop (fun s s' hs => ?_) hs
  refine bind kind fun k k' hk => ?_
  cases (show k = k' from hk)
  split
  · exact bind skip fun _ _ _ => pure (by simp [hs])
  · exact bind (report _) fun _ _ _ => pure (by simp [hs])
  · exact bind skip fun _ _ _ => pure (by simp [hs])
  · exact bind (h s s' hs) fun a a' ha => pure (by simp [ha])

theorem body (opening : String) {closing closing' : String} (hclosing : closing = closing')
    {statement statement' : σ → Parser σ}
    (h : ∀ s s', seen S s = seen S s' → Agree S (statement s) (statement' s')) {s s' : σ}
    (hs : seen S s = seen S s') :
    Agree S (body opening closing statement s) (body opening closing' statement' s') := by
  refine bind (attempt (expect _ _)) fun o o' ho => ?_
  cases o <;> cases o'
  · exact pure hs
  · simp at ho
  · simp at ho
  · exact block closing closing' hclosing h hs

end Agree

end Parser

end ProtoDecl.Schema
