import Mathlib.Logic.Function.Iterate
import ProtoDecl.Proofs.Layout.Sight

/-!
# Rules of a grammar

A rule relates the words of one part of a language to the trees they stand for.  Rules are put
together as in extended Backus-Naur form, and `do` blocks write sequences with the tree they build:

* `pure` and `>>=`, the empty word and one word behind another; `<$>`, the same words with other
  trees; `<|>`, a choice;
* `terminal`, `token`, `symbol` and `keyword`, single tokens;
* `many` and `separated`, repetition;
* `notAt` and `satisfying`, which leave out some words;
* `nested`, a rule that refers to itself.

Nothing here looks ahead or prefers one alternative to another.

Three facts about rules are needed to compare them with parsers: how their words begin (`Begins`),
what stands next where a word of a rule comes first (`Offers`), and that a rule has more words if
its parts have (`Le`).
-/

namespace ProtoDecl.Schema

/-- The words of one part of a language, each with the tree it stands for. -/
def Rule (α : Type) : Type :=
  List Token → α → Prop

/-- The kind of the first of some tokens, before the end of the file. -/
def nextKind (w : List Token) : Kind :=
  (w.head?.map Token.kind).getD .endOfFile

@[simp] theorem nextKind_nil : nextKind [] = .endOfFile :=
  rfl

@[simp] theorem nextKind_cons (t : Token) (w : List Token) : nextKind (t :: w) = t.kind :=
  rfl

namespace Rule

variable {α β ι : Type}

instance : Monad Rule where
  pure a := fun w b => w = [] ∧ b = a
  bind r f := fun w b => ∃ u v a, w = u ++ v ∧ r u a ∧ f a v b
  map f r := fun w b => ∃ a, r w a ∧ b = f a

instance : OrElse (Rule α) where
  orElse r s := fun w a => r w a ∨ s () w a

/-- No words. -/
def nothing : Rule α :=
  fun _ _ => False

/-- One token of some kind, and what it is without its place. -/
def terminal (P : Kind → Prop) : Rule Token :=
  fun w t => ∃ u, w = [u] ∧ P u.kind ∧ t = { u with span := nowhere }

/-- One token of the given kind. -/
def token (k : Kind) : Rule Token :=
  terminal (· = k)

/-- The given symbol. -/
def symbol (s : Symbol) : Rule Token :=
  token (.symbol s)

/-- The given keyword. -/
def keyword (k : Keyword) : Rule Token :=
  token (.keyword k)

/-- Words of a rule one behind another. -/
inductive Many (r : Rule α) : List Token → List α → Prop
  | nil : Many r [] []
  | cons {u v : List Token} {a : α} {as : List α} (head : r u a) (tail : Many r v as) :
      Many r (u ++ v) (a :: as)

/-- Any number of words of a rule. -/
def many (r : Rule α) : Rule (List α) :=
  Many r

/-- One or more words of a rule with commas between. -/
def separated (r : Rule α) : Rule (List α) := do
  let first ← r
  let rest ← many do
    let _ ← symbol .comma
    r
  return first :: rest

/-- The words of a rule that do not begin with a token of some kind. -/
def notAt (P : Kind → Prop) (r : Rule α) : Rule α :=
  fun w a => r w a ∧ ∀ t ∈ w.head?, ¬ P t.kind

/-- The words of a rule whose trees satisfy a condition. -/
def satisfying (P : α → Prop) (r : Rule α) : Rule α :=
  fun w a => r w a ∧ P a

/-- The rule that `step` describes in terms of itself: a word belongs to it if finitely many steps
derive it. -/
def nested (step : Rule α → Rule α) : Rule α :=
  fun w a => ∃ n, (step^[n] nothing) w a

/-! ## Taking words apart -/

section
variable {r s : Rule α} {f : α → Rule β} {w : List Token} {a : α} {b : β}

theorem map_iff {f : α → β} : (f <$> r) w b ↔ ∃ a, r w a ∧ b = f a :=
  Iff.rfl

theorem or_iff : (r <|> s) w a ↔ r w a ∨ s w a :=
  Iff.rfl

theorem map_or (f : α → β) (r s : Rule α) : f <$> (r <|> s) = (f <$> r <|> f <$> s) := by
  funext w b
  simp only [map_iff, or_iff, or_and_right, exists_or]

theorem map_map (f : β → ι) (g : α → β) (r : Rule α) : f <$> (g <$> r) = (f ∘ g) <$> r := by
  funext w c
  refine propext ⟨?_, ?_⟩
  · rintro ⟨b, ⟨a, ha, rfl⟩, rfl⟩
    exact ⟨a, ha, rfl⟩
  · rintro ⟨a, ha, rfl⟩
    exact ⟨g a, ⟨a, ha, rfl⟩, rfl⟩

theorem map_pure (f : α → β) (a : α) : f <$> (pure a : Rule α) = pure (f a) := by
  funext w b
  refine propext ⟨?_, ?_⟩
  · rintro ⟨_, ⟨rfl, rfl⟩, rfl⟩
    exact ⟨rfl, rfl⟩
  · rintro ⟨rfl, rfl⟩
    exact ⟨a, ⟨rfl, rfl⟩, rfl⟩

theorem map_bind (f : β → ι) (r : Rule α) (g : α → Rule β) :
    f <$> (r >>= g) = r >>= fun a => f <$> g a := by
  funext w c
  refine propext ⟨?_, ?_⟩
  · rintro ⟨b, ⟨u, v, a, rfl, ha, hb⟩, rfl⟩
    exact ⟨u, v, a, rfl, ha, b, hb, rfl⟩
  · rintro ⟨u, v, a, rfl, ha, b, hb, rfl⟩
    exact ⟨b, ⟨u, v, a, rfl, ha, hb⟩, rfl⟩

theorem bind_pure (f : α → β) (r : Rule α) : (r >>= fun a => pure (f a)) = f <$> r := by
  funext w b
  refine propext ⟨?_, ?_⟩
  · rintro ⟨u, v, a, rfl, ha, rfl, rfl⟩
    exact ⟨a, by rwa [List.append_nil], rfl⟩
  · rintro ⟨a, ha, rfl⟩
    exact ⟨w, [], a, (List.append_nil w).symm, ha, rfl, rfl⟩

theorem or_bind (r s : Rule α) (f : α → Rule β) :
    ((r <|> s) >>= f) = (r >>= f <|> s >>= f) := by
  funext w b
  refine propext ⟨?_, ?_⟩
  · rintro ⟨u, v, a, rfl, ha | ha, hv⟩
    · exact .inl ⟨u, v, a, rfl, ha, hv⟩
    · exact .inr ⟨u, v, a, rfl, ha, hv⟩
  · rintro (⟨u, v, a, rfl, ha, hv⟩ | ⟨u, v, a, rfl, ha, hv⟩)
    · exact ⟨u, v, a, rfl, .inl ha, hv⟩
    · exact ⟨u, v, a, rfl, .inr ha, hv⟩

theorem satisfying_or (P : α → Prop) (r s : Rule α) :
    (r <|> s).satisfying P = (r.satisfying P <|> s.satisfying P) := by
  funext w a
  exact propext or_and_right

theorem satisfying_map (P : β → Prop) (f : α → β) (r : Rule α) :
    (f <$> r).satisfying P = f <$> r.satisfying fun a => P (f a) := by
  funext w b
  refine propext ⟨?_, ?_⟩
  · rintro ⟨⟨a, ha, rfl⟩, hP⟩
    exact ⟨a, ⟨ha, hP⟩, rfl⟩
  · rintro ⟨a, ⟨ha, hP⟩, rfl⟩
    exact ⟨⟨a, ha, rfl⟩, hP⟩

theorem satisfying_true (r : Rule α) : (r.satisfying fun _ => True) = r := by
  funext w a
  exact propext (and_iff_left trivial)

/-- Two alternatives that begin alike. -/
theorem map_or_bind (f : α → β) (g : α → Rule β) (r : Rule α) :
    (f <$> r <|> r >>= g) = r >>= fun a => pure (f a) <|> g a := by
  funext w b
  refine propext ⟨?_, ?_⟩
  · rintro (⟨a, ha, rfl⟩ | ⟨u, v, a, rfl, ha, hv⟩)
    · exact ⟨w, [], a, (List.append_nil w).symm, ha, .inl ⟨rfl, rfl⟩⟩
    · exact ⟨u, v, a, rfl, ha, .inr hv⟩
  · rintro ⟨u, _, a, rfl, ha, ⟨rfl, rfl⟩ | hv⟩
    · exact .inl ⟨a, by rwa [List.append_nil], rfl⟩
    · exact .inr ⟨u, _, a, rfl, ha, hv⟩

theorem bind_bind (r : Rule α) (f : α → Rule β) (g : β → Rule ι) :
    (r >>= f >>= g) = r >>= fun a => f a >>= g := by
  funext w c
  refine propext ⟨?_, ?_⟩
  · rintro ⟨_, v', b, rfl, ⟨u, v, a, rfl, ha, hb⟩, hc⟩
    exact ⟨u, v ++ v', a, List.append_assoc .., ha, v, v', b, rfl, hb, hc⟩
  · rintro ⟨u, _, a, rfl, ha, v, v', b, rfl, hb, hc⟩
    exact ⟨u ++ v, v', b, (List.append_assoc ..).symm, ⟨u, v, a, rfl, ha, hb⟩, hc⟩

theorem pure_bind (a : α) (f : α → Rule β) : (pure a >>= f) = f a := by
  funext w b
  refine propext ⟨?_, fun h => ⟨[], w, a, rfl, ⟨rfl, rfl⟩, h⟩⟩
  rintro ⟨_, v, _, rfl, ⟨rfl, rfl⟩, h⟩
  exact h

theorem bind_map (f : α → β) (g : β → Rule ι) (r : Rule α) :
    (f <$> r >>= g) = r >>= fun a => g (f a) := by
  funext w c
  refine propext ⟨?_, ?_⟩
  · rintro ⟨u, v, _, rfl, ⟨a, ha, rfl⟩, hv⟩
    exact ⟨u, v, a, rfl, ha, hv⟩
  · rintro ⟨u, v, a, rfl, ha, hv⟩
    exact ⟨u, v, f a, rfl, ⟨a, ha, rfl⟩, hv⟩

end

theorem many_one {r : Rule α} {w : List Token} {a : α} (h : r w a) : r.many w [a] := by
  rw [← List.append_nil w]
  exact .cons h .nil

/-- Words of a rule one behind another, as words of a rule with other trees. -/
theorem many_map {r : Rule α} {s : Rule β} {f : α → β} (h : ∀ w a, r w a → s w (f a))
    {w : List Token} {as : List α} (has : r.many w as) : s.many w (as.map f) := by
  induction has with
  | nil => exact .nil
  | cons head _ ih => exact .cons (h _ _ head) ih

/-- One word and a token behind it. -/
theorem bind_token_iff {r : Rule α} {k : Kind} {f : α → β} {w : List Token} {b : β} :
    (do let a ← r; let _ ← token k; return f a : Rule β) w b ↔
      ∃ u a t, r u a ∧ t.kind = k ∧ w = u ++ [t] ∧ b = f a := by
  constructor
  · rintro ⟨u, _, a, rfl, ha, _, _, _, rfl, ⟨t, rfl, ht, rfl⟩, rfl, rfl⟩
    exact ⟨u, a, t, ha, ht, rfl, rfl⟩
  · rintro ⟨u, a, t, ha, ht, rfl, rfl⟩
    exact ⟨u, [t], a, rfl, ha, [t], [], _, rfl, ⟨t, rfl, ht, rfl⟩, rfl, rfl⟩

/-- The words of a rule with commas between are one of them, or one, a comma and such words
again. -/
theorem separated_iff {r : Rule α} {w : List Token} {as : List α} :
    r.separated w as ↔ (∃ a, r w a ∧ as = [a]) ∨
      ∃ u a t v as', r u a ∧ t.kind = .symbol .comma ∧ r.separated v as' ∧ w = u ++ t :: v ∧
        as = a :: as' := by
  constructor
  · rintro ⟨u, _, a, rfl, ha, v, _, rest, rfl, hrest, rfl, rfl⟩
    rw [List.append_nil]
    cases hrest with
    | nil => exact .inl ⟨a, by rwa [List.append_nil], rfl⟩
    | cons head tail =>
      obtain ⟨_, u', _, rfl, ⟨t, rfl, ht, rfl⟩, ha'⟩ := head
      refine .inr ⟨u, a, t, _, _, ha, ht, ?_, rfl, rfl⟩
      exact ⟨u', _, _, rfl, ha', _, [], _, (List.append_nil _).symm, tail, rfl, rfl⟩
  · rintro (⟨a, ha, rfl⟩ | ⟨u, a, t, _, as', ha, ht, ⟨u', _, a', rfl, ha', v, _, rest, rfl, hrest,
      rfl, rfl⟩, rfl, rfl⟩)
    · exact ⟨w, [], a, (List.append_nil w).symm, ha, [], [], [], rfl, .nil, rfl, rfl⟩
    · refine ⟨u, [t] ++ u' ++ v, a, by simp, ha, [t] ++ u' ++ v, [], a' :: rest, by simp, ?_, rfl,
        rfl⟩
      exact .cons ⟨[t], u', _, rfl, ⟨t, rfl, ht, rfl⟩, ha'⟩ hrest

/-! ## Beginnings -/

/-- Whether every word of the rule begins with a token of some kind. -/
def Begins (r : Rule α) (P : Kind → Prop) : Prop :=
  ∀ w a, r w a → ∃ t v, w = t :: v ∧ P t.kind

section
variable {r s : Rule α} {P Q : Kind → Prop}

theorem terminal_begins (P : Kind → Prop) : (terminal P).Begins P := by
  rintro w t ⟨u, rfl, hu, -⟩
  exact ⟨u, [], rfl, hu⟩

theorem token_begins (k : Kind) : (token k).Begins (· = k) :=
  terminal_begins _

theorem Begins.mono (h : r.Begins P) (hPQ : ∀ k, P k → Q k) : r.Begins Q := by
  intro w a hw
  obtain ⟨t, v, rfl, ht⟩ := h w a hw
  exact ⟨t, v, rfl, hPQ _ ht⟩

theorem Begins.bind (h : r.Begins P) (f : α → Rule β) : (r >>= f).Begins P := by
  rintro w b ⟨u, v, a, rfl, hu, -⟩
  obtain ⟨t, u', rfl, ht⟩ := h u a hu
  exact ⟨t, u' ++ v, rfl, ht⟩

theorem Begins.map (h : r.Begins P) (f : α → β) : (f <$> r).Begins P := by
  rintro w b ⟨a, ha, -⟩
  exact h w a ha

theorem Begins.or (h : r.Begins P) (h' : s.Begins P) : (r <|> s).Begins P := by
  rintro w a (ha | ha)
  · exact h w a ha
  · exact h' w a ha

theorem Begins.notAt (h : r.Begins P) : (r.notAt Q).Begins fun k => P k ∧ ¬Q k := by
  rintro w a ⟨hw, hnot⟩
  obtain ⟨t, v, rfl, ht⟩ := h w a hw
  exact ⟨t, v, rfl, ht, hnot t rfl⟩

theorem Begins.satisfying (h : r.Begins P) (p : α → Prop) : (r.satisfying p).Begins P :=
  fun w a hw => h w a hw.1

theorem Begins.separated (h : r.Begins P) : r.separated.Begins P :=
  h.bind _

/-- Whether every word of the rule is a single token of some kind. -/
def One (r : Rule α) (P : Kind → Prop) : Prop :=
  ∀ w a, r w a → ∃ t, w = [t] ∧ P t.kind

theorem terminal_one (P : Kind → Prop) : (terminal P).One P := by
  rintro w t ⟨u, rfl, hu, -⟩
  exact ⟨u, rfl, hu⟩

theorem token_one (k : Kind) : (token k).One (· = k) :=
  terminal_one _

theorem One.of_bind {f : α → Rule β} (hr : r.One P) {w : List Token} {b : β}
    (h : (r >>= f) w b) : ∃ t v a, w = t :: v ∧ P t.kind ∧ f a v b := by
  obtain ⟨u, v, a, rfl, hu, hv⟩ := h
  obtain ⟨t, rfl, ht⟩ := hr u a hu
  exact ⟨t, v, a, rfl, ht, hv⟩

/-- The words of a rule, and what may follow them, have a next token of some kind.  It is the first
of the word, or the one behind it if the word is empty. -/
def Offers (r : Rule α) (F P : Kind → Prop) : Prop :=
  ∀ w a rest, r w a → F (nextKind rest) → P (nextKind (w ++ rest))

theorem Begins.offers {F : Kind → Prop} (h : r.Begins Q) (hQP : ∀ k, Q k → P k) :
    r.Offers F P := by
  intro w a rest hw _
  obtain ⟨t, v, rfl, ht⟩ := h w a hw
  exact hQP _ ht

theorem offers_pure {F : Kind → Prop} (a : α) (h : ∀ k, F k → P k) :
    (pure a : Rule α).Offers F P := by
  rintro w a rest ⟨rfl, -⟩ hF
  exact h _ hF

theorem Offers.or {F : Kind → Prop} (h : r.Offers F P) (h' : s.Offers F P) :
    (r <|> s).Offers F P := by
  rintro w a rest (ha | ha) hF
  · exact h w a rest ha hF
  · exact h' w a rest ha hF

end

/-! ## More words -/

/-- Whether every word of a rule is one of another, for the same tree. -/
def Le (r s : Rule α) : Prop :=
  ∀ w a, r w a → s w a

section
variable {r s : Rule α}

theorem Le.refl (r : Rule α) : r.Le r :=
  fun _ _ h => h

theorem Le.bind {f g : α → Rule β} (h : r.Le s) (hf : ∀ a, (f a).Le (g a)) :
    (r >>= f).Le (s >>= g) := by
  rintro w b ⟨u, v, a, rfl, hu, hv⟩
  exact ⟨u, v, a, rfl, h u a hu, hf a v b hv⟩

theorem Le.map (h : r.Le s) (f : α → β) : (f <$> r).Le (f <$> s) := by
  rintro w b ⟨a, ha, rfl⟩
  exact ⟨a, h w a ha, rfl⟩

theorem Le.or {r' s' : Rule α} (h : r.Le s) (h' : r'.Le s') : (r <|> r').Le (s <|> s') := by
  rintro w a (ha | ha)
  · exact .inl (h w a ha)
  · exact .inr (h' w a ha)

theorem Le.many (h : r.Le s) : r.many.Le s.many := by
  intro w as hw
  induction hw with
  | nil => exact .nil
  | cons head _ ih => exact .cons (h _ _ head) ih

/-- The words that some steps derive are derived by more steps too. -/
theorem iterate_le {step : Rule α → Rule α} (hstep : ∀ r s, Le r s → (step r).Le (step s))
    {m n : Nat} (h : m ≤ n) : (step^[m] nothing).Le (step^[n] nothing) := by
  induction m generalizing n with
  | zero => exact fun _ _ hfalse => hfalse.elim
  | succ m ih =>
    obtain ⟨n, rfl⟩ : ∃ k, n = k + 1 := ⟨n - 1, by omega⟩
    rw [Function.iterate_succ_apply', Function.iterate_succ_apply']
    exact hstep _ _ (ih (Nat.le_of_succ_le_succ h))

end

end Rule

end ProtoDecl.Schema
