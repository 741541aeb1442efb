import Mathlib.Data.List.Chain
import ProtoDecl.Proofs.Grammar.Files
import ProtoDecl.Proofs.Grammar.Words
import ProtoDecl.Proofs.Layout.Output
import ProtoDecl.Token.Scan

/-!
# Lists of options

A list of options in brackets is meant to hold one option or more, with commas between.  But the
brackets may also be empty, and a comma may stand before the closing one: neither is reported, and
neither leaves a trace in the tree.

* `Listed`: in a file that is read without errors, brackets come from lists of options only;
* `Variant`: three ways to write the end of a list differently;
* `Rule.Lenient`: the words of a rule may be written differently so and keep their trees.  All rules
  of the grammar are lenient, because every bracket in their words comes from `Grammar.optionList`.

So all lists are proper just if no closing bracket stands behind an opening one or a comma, and
nothing in the tree tells whether they are (`option_lists_proper_iff`).
-/

namespace ProtoDecl

namespace Schema

/-! ## Words without brackets -/

/-- Tokens without brackets. -/
def BracketFree (w : List Token) : Prop :=
  ∀ t ∈ w, t.kind.isBracket = false

instance : Rule.Composes BracketFree where
  nil _ ht := absurd ht List.not_mem_nil
  append hu hv t ht := (List.mem_append.1 ht).elim (hu t) (hv t)

theorem Plain.bracketFree {w : List Token} (h : Plain w) : BracketFree w :=
  fun t ht => (h t ht).2

theorem BracketFree.not_mem {w : List Token} {t : Token} (h : BracketFree w)
    (ht : t.kind.isBracket = true) : t ∉ w := by
  intro hmem
  rw [h t hmem] at ht
  cases ht

namespace Grammar

open Rule

theorem token_bracketFree {k : Kind} (h : k.isBracket = false) : (token k).Every BracketFree := by
  refine .terminal fun t ht u hu => ?_
  rw [List.mem_singleton.1 hu, ht]
  exact h

theorem body_bracketFree {ι : Type} {item : Rule ι} (hitem : item.Every BracketFree) :
    (body item).Every BracketFree := by
  refine (token_bracketFree rfl).bind fun _ => .bind (.many ?_) fun _ => ?_
  · exact .or (hitem.map _) (.map (token_bracketFree rfl) _)
  · exact (token_bracketFree rfl).bind fun _ => .pure _

theorem service_bracketFree : service.Every BracketFree := by
  have hname : name.Every BracketFree := name_plain.mono fun _ => Plain.bracketFree
  have htype : methodType.Every BracketFree := methodType_plain.mono fun _ => Plain.bracketFree
  have hoption : optionStatement.Every BracketFree :=
    optionStatement_plain.mono fun _ => Plain.bracketFree
  have hend : methodEnd.Every BracketFree :=
    .or (.map (token_bracketFree rfl) _) (body_bracketFree hoption)
  have hmethod : method.Every BracketFree := by
    refine (token_bracketFree rfl).bind fun _ => hname.bind fun _ => htype.bind fun _ => ?_
    refine (token_bracketFree rfl).bind fun _ => htype.bind fun _ => hend.bind fun _ => .pure _
  have hitem : serviceItem.Every BracketFree := .or (hoption.map _) (hmethod.map _)
  exact (token_bracketFree rfl).bind fun _ => hname.bind fun _ =>
    (body_bracketFree hitem).bind fun _ => .pure _

end Grammar

/-! ## The end of a list -/

/-- A token in one of two words side by side. -/
theorem append_eq_append_cons {p q u v : List Token} {t : Token} (h : p ++ q = u ++ t :: v) :
    (∃ v', p = u ++ t :: v' ∧ v = v' ++ q) ∨ ∃ u', u = p ++ u' ∧ q = u' ++ t :: v := by
  rcases List.append_eq_append_iff.1 h with ⟨u', rfl, rfl⟩ | ⟨bs, rfl, hbs⟩
  · exact .inr ⟨u', rfl, rfl⟩
  · rcases List.cons_eq_append_iff.1 hbs with ⟨rfl, rfl⟩ | ⟨v', rfl, rfl⟩
    · exact .inr ⟨[], by simp, rfl⟩
    · exact .inl ⟨v', rfl, rfl⟩

/-- Two tokens one behind the other are in one of two words side by side, or one in each. -/
theorem append_eq_append_pair {p q u v : List Token} {y e : Token}
    (h : p ++ q = u ++ y :: e :: v) :
    (∃ v', p = u ++ y :: e :: v' ∧ v = v' ++ q) ∨ q = e :: v ∨
      ∃ u', u = p ++ u' ∧ q = u' ++ y :: e :: v := by
  rcases append_eq_append_cons h with ⟨v', rfl, hv⟩ | hright
  · rcases List.cons_eq_append_iff.1 hv with ⟨-, rfl⟩ | ⟨v'', rfl, rfl⟩
    · exact .inr (.inl rfl)
    · exact .inl ⟨v'', rfl, rfl⟩
  · exact .inr (.inr hright)

namespace Grammar

open Rule

theorem optionList_iff {w : List Token} {os : List OptionDecl} :
    optionList w os ↔ ∃ o entries e, w = o :: (entries ++ [e]) ∧ o.kind = .symbol .openBracket ∧
      e.kind = .symbol .closeBracket ∧ optionEntries entries os := by
  constructor
  · rintro ⟨_, _, _, rfl, ⟨o, rfl, ho, rfl⟩, htail⟩
    obtain ⟨entries, _, e, hentries, he, rfl, rfl⟩ := bind_token_iff.1 htail
    exact ⟨o, entries, e, rfl, ho, he, hentries⟩
  · rintro ⟨o, entries, e, rfl, ho, he, hentries⟩
    refine ⟨[o], _, _, rfl, ⟨o, rfl, ho, rfl⟩, ?_⟩
    exact bind_token_iff.2 ⟨entries, os, e, hentries, he, rfl, rfl⟩

/-- The closing bracket of a list is its last token. -/
theorem eq_of_closeBracket {o e e' : Token} {entries u v : List Token} {os : List OptionDecl}
    (ho : o.kind = .symbol .openBracket) (hentries : optionEntries entries os)
    (he : e.kind = .symbol .closeBracket) (h : o :: (entries ++ [e']) = u ++ e :: v) :
    o :: entries = u ∧ v = [] := by
  rw [← List.cons_append] at h
  rcases append_eq_append_cons h with ⟨v', hv', -⟩ | ⟨u', rfl, hlast⟩
  · have hmem : e ∈ o :: entries := hv' ▸ List.mem_append_right u List.mem_cons_self
    rcases List.mem_cons.1 hmem with rfl | hmem
    · rw [ho] at he
      cases he
    · have hfree := (optionEntries_plain _ _ hentries).bracketFree
      exact absurd hmem (hfree.not_mem (by rw [he]; rfl))
  · have hlength := congrArg List.length hlast
    simp only [List.length_append, List.length_cons, List.length_nil] at hlength
    have hu' : u' = [] := List.length_eq_zero_iff.1 (by omega)
    have hv : v = [] := List.length_eq_zero_iff.1 (by omega)
    exact ⟨by rw [hu', List.append_nil], hv⟩

theorem assignment_last {w : List Token} {o : OptionDecl} (h : assignment w o) :
    ∃ u t, w = u ++ [t] ∧ t.kind ≠ .symbol .comma := by
  obtain ⟨u, _, _, rfl, -, _, _, _, rfl, ⟨equals, rfl, -, -⟩, _, _, _, rfl, ⟨_, hconstant, -⟩,
    rfl, -⟩ := h
  have hone : constant.One (· ≠ .symbol .comma) := by
    rintro w c (⟨_, ⟨_, ⟨t, rfl, ht, -⟩, -⟩, -⟩ | ⟨_, ⟨_, ⟨t, rfl, ht, -⟩, -⟩, -⟩ |
      ⟨_, ⟨t, rfl, ht, -⟩, -⟩ | ⟨_, ⟨t, rfl, ht, -⟩, -⟩)
    all_goals exact ⟨t, rfl, by simp [ht]⟩
  obtain ⟨t, rfl, ht⟩ := hone _ _ hconstant
  exact ⟨u ++ [equals], t, by simp, ht⟩

/-- Options with commas between do not end in one. -/
theorem assignments_last {w : List Token} {os : List OptionDecl} (h : separated assignment w os) :
    ∃ u t, w = u ++ [t] ∧ t.kind ≠ .symbol .comma := by
  obtain ⟨u, _, _, rfl, hfirst, v, _, rest, rfl, hrest, rfl, -⟩ := h
  have hmore : v = [] ∨ ∃ v' t, v = v' ++ [t] ∧ t.kind ≠ .symbol .comma := by
    induction hrest with
    | nil => exact .inl rfl
    | @cons p q _ _ head _ ih =>
      obtain ⟨comma, p, _, rfl, -, hoption⟩ := head
      right
      rcases ih with rfl | ⟨q', t, rfl, ht⟩
      · obtain ⟨p', t, rfl, ht⟩ := assignment_last hoption
        exact ⟨comma ++ p', t, by simp, ht⟩
      · exact ⟨comma ++ p ++ q', t, by simp, ht⟩
  rw [List.append_nil]
  rcases hmore with rfl | ⟨v', t, rfl, ht⟩
  · rw [List.append_nil]
    exact assignment_last hfirst
  · exact ⟨u ++ v', t, (List.append_assoc ..).symm, ht⟩

/-- The token before the closing bracket tells what stands in the list: nothing, options with commas
between, or such options and one more comma. -/
theorem optionEntries_cases {o y : Token} {entries u : List Token} {os : List OptionDecl}
    (ho : o.kind = .symbol .openBracket) (hentries : optionEntries entries os)
    (h : o :: entries = u ++ [y]) :
    (y.kind = .symbol .openBracket ∧ u = [] ∧ entries = [] ∧ os = []) ∨
      (y.kind ≠ .symbol .openBracket ∧ y.kind ≠ .symbol .comma ∧
        separated assignment entries os) ∨
      (y.kind = .symbol .comma ∧ ∃ init, u = o :: init ∧ separated assignment init os) := by
  rcases hentries with ⟨rfl, rfl⟩ | hproper | hcomma
  · obtain ⟨rfl, hy⟩ := List.append_inj' (List.nil_append [o] |>.trans h) rfl
    cases hy
    exact .inl ⟨ho, rfl, rfl, rfl⟩
  · obtain ⟨init, t, rfl, ht⟩ := assignments_last hproper
    rw [← List.cons_append] at h
    obtain ⟨rfl, hy⟩ := List.append_inj' h rfl
    cases hy
    have hfree := (assignments_plain _ _ hproper y (by simp)).2
    refine .inr (.inl ⟨fun hy => ?_, ht, hproper⟩)
    rw [hy] at hfree
    cases hfree
  · obtain ⟨init, _, c, hinit, hc, rfl, rfl⟩ := bind_token_iff.1 hcomma
    rw [← List.cons_append] at h
    obtain ⟨rfl, hy⟩ := List.append_inj' h rfl
    cases hy
    exact .inr (.inr ⟨hc, init, rfl, hinit⟩)

end Grammar

/-! ## Words with lists -/

/-- Tokens among which brackets come from lists of options only. -/
inductive Listed : List Token → Prop
  | nil : Listed []
  | token {t : Token} (h : t.kind.isBracket = false) : Listed [t]
  | list {w : List Token} {os : List OptionDecl} (h : Grammar.optionList w os) : Listed w
  | append {u v : List Token} (hu : Listed u) (hv : Listed v) : Listed (u ++ v)

instance : Rule.Composes Listed where
  nil := .nil
  append := .append

namespace Listed

theorem of_bracketFree {w : List Token} (h : BracketFree w) : Listed w := by
  induction w with
  | nil => exact .nil
  | cons t w ih =>
    have hrest := ih fun u hu => h u (List.mem_cons_of_mem t hu)
    exact .append (.token (h t List.mem_cons_self)) hrest

/-- What stands behind an opening bracket. -/
theorem opens {w u v : List Token} {o : Token} (h : Listed w) (hw : w = u ++ o :: v)
    (ho : o.kind = .symbol .openBracket) :
    ∃ entries e rest os, v = entries ++ e :: rest ∧ e.kind = .symbol .closeBracket ∧
      Grammar.optionEntries entries os := by
  induction h generalizing u v with
  | nil => simp at hw
  | @token t ht =>
    have hmem : o ∈ [t] := hw ▸ List.mem_append_right u List.mem_cons_self
    rw [← List.mem_singleton.1 hmem, ho] at ht
    cases ht
  | list hlist =>
    obtain ⟨o', entries, e, rfl, -, he, hentries⟩ := Grammar.optionList_iff.1 hlist
    rcases List.cons_eq_append_iff.1 hw with ⟨-, hv⟩ | ⟨u', -, hu'⟩
    · cases hv
      exact ⟨entries, e, [], _, rfl, he, hentries⟩
    · have hmem : o ∈ entries ++ [e] := hu' ▸ List.mem_append_right u' List.mem_cons_self
      rcases List.mem_append.1 hmem with hmem | hmem
      · have hfree := (Grammar.optionEntries_plain _ _ hentries).bracketFree
        exact absurd hmem (hfree.not_mem (by rw [ho]; rfl))
      · rw [List.mem_singleton.1 hmem, he] at ho
        cases ho
  | @append p q _ _ ihp ihq =>
    rcases append_eq_append_cons hw with ⟨v', hleft, rfl⟩ | ⟨u', -, hright⟩
    · obtain ⟨entries, e, rest, os, rfl, he, hentries⟩ := ihp hleft
      exact ⟨entries, e, rest ++ q, os, by simp, he, hentries⟩
    · exact ihq hright

/-- What stands before a closing bracket. -/
theorem closes {w u v : List Token} {e : Token} (h : Listed w) (hw : w = u ++ e :: v)
    (he : e.kind = .symbol .closeBracket) :
    ∃ u' o entries os, u = u' ++ o :: entries ∧ o.kind = .symbol .openBracket ∧
      Grammar.optionEntries entries os := by
  induction h generalizing u v with
  | nil => simp at hw
  | @token t ht =>
    have hmem : e ∈ [t] := hw ▸ List.mem_append_right u List.mem_cons_self
    rw [← List.mem_singleton.1 hmem, he] at ht
    cases ht
  | list hlist =>
    obtain ⟨o, entries, e', rfl, ho, -, hentries⟩ := Grammar.optionList_iff.1 hlist
    obtain ⟨rfl, -⟩ := Grammar.eq_of_closeBracket ho hentries he hw
    exact ⟨[], o, entries, _, rfl, ho, hentries⟩
  | @append p q _ _ ihp ihq =>
    rcases append_eq_append_cons hw with ⟨v', hleft, -⟩ | ⟨u', rfl, hright⟩
    · exact ihp hleft
    · obtain ⟨u'', o, entries, os, rfl, ho, hentries⟩ := ihq hright
      exact ⟨p ++ u'', o, entries, os, (List.append_assoc ..).symm, ho, hentries⟩

theorem head_ne_closeBracket {v : List Token} {e : Token} (h : Listed (e :: v)) :
    e.kind ≠ .symbol .closeBracket := by
  intro he
  obtain ⟨u', o, entries, -, hnil, -⟩ := h.closes (u := []) rfl he
  simp at hnil

end Listed

/-- Whether every list of options holds one option or more, with commas between. -/
def ListsProper (w : List Token) : Prop :=
  ∀ u o v, w = u ++ o :: v → o.kind = .symbol .openBracket →
    ∃ entries e rest, v = entries ++ e :: rest ∧ e.kind = .symbol .closeBracket ∧
      ∃ os, Rule.separated Grammar.assignment entries os

/-- Tokens without brackets end at the first closing one. -/
theorem BracketFree.eq_of_append_eq {p q v v' : List Token} {e e' : Token} (hp : BracketFree p)
    (hq : BracketFree q) (he : e.kind = .symbol .closeBracket)
    (he' : e'.kind = .symbol .closeBracket) (h : p ++ e :: v = q ++ e' :: v') : p = q := by
  rcases append_eq_append_cons h with ⟨_, rfl, -⟩ | ⟨u', rfl, hu'⟩
  · exact absurd (by simp) (hp.not_mem (t := e') (by rw [he']; rfl))
  · cases u' with
    | nil => exact (List.append_nil p).symm
    | cons t u' =>
      cases hu'
      exact absurd (by simp) (hq.not_mem (t := e) (by rw [he]; rfl))

/-- Whether the second of two tokens does not close a list just opened, or one that ends in a
comma. -/
def ClosesOption (t e : Token) : Prop :=
  e.kind = .symbol .closeBracket → t.kind ≠ .symbol .openBracket ∧ t.kind ≠ .symbol .comma

instance (t e : Token) : Decidable (ClosesOption t e) :=
  inferInstanceAs (Decidable (_ → _))

/-- Lists are proper if no closing bracket stands behind an opening one or a comma. -/
theorem Listed.proper_iff {w : List Token} (h : Listed w) :
    ListsProper w ↔ w.IsChain ClosesOption := by
  rw [List.isChain_iff_forall_rel_of_append_cons_cons]
  constructor
  · rintro hproper t e u v rfl he
    obtain ⟨u', o, entries, os, hu', ho, hentries⟩ :=
      h.closes (u := u ++ [t]) (v := v) (by simp) he
    obtain ⟨entries', e', rest, hrest, he', os', hassignments⟩ :=
      hproper u' o (entries ++ e :: v) (by simpa using congrArg (· ++ e :: v) hu') ho
    have hsame : entries = entries' :=
      (Grammar.optionEntries_plain _ _ hentries).bracketFree.eq_of_append_eq
        (Grammar.assignments_plain _ _ hassignments).bracketFree he he' hrest
    subst hsame
    obtain ⟨init, t', rfl, ht'⟩ := Grammar.assignments_last hassignments
    have ht : t = t' := by
      rw [← List.cons_append, ← List.append_assoc] at hu'
      cases (List.append_inj' hu' rfl).2
      rfl
    subst ht
    have hfree := (Grammar.assignments_plain _ _ hassignments t (by simp)).2
    refine ⟨fun hopen => ?_, ht'⟩
    rw [hopen] at hfree
    cases hfree
  · intro hends u o v hw ho
    obtain ⟨entries, e, rest, os, rfl, he, hentries⟩ := h.opens hw ho
    refine ⟨entries, e, rest, rfl, he, os, ?_⟩
    obtain ⟨u', y, hy⟩ : ∃ u' y, o :: entries = u' ++ [y] :=
      ⟨_, _, (List.dropLast_concat_getLast (List.cons_ne_nil o entries)).symm⟩
    have hword : w = (u ++ u') ++ y :: e :: rest := by
      rw [hw, ← List.cons_append, hy]
      simp
    have hend := hends hword he
    rcases Grammar.optionEntries_cases ho hentries hy with ⟨hopen, -⟩ | ⟨-, -, hproper⟩ |
      ⟨hcomma, -⟩
    · exact absurd hopen hend.1
    · exact hproper
    · exact absurd hcomma hend.2

/-! ## Lists written differently -/

/-- Other ways to write the end of a list: the tokens that may stand in the place of a closing
bracket and the token before it. -/
inductive Variant : Token → Token → List Token → Prop
  | withComma {y c e : Token} (hopen : y.kind ≠ .symbol .openBracket)
      (hcomma : y.kind ≠ .symbol .comma) (hc : c.kind = .symbol .comma)
      (he : e.kind = .symbol .closeBracket) : Variant y e [y, c, e]
  | withoutComma {c e : Token} (hc : c.kind = .symbol .comma)
      (he : e.kind = .symbol .closeBracket) : Variant c e [e]
  | withoutList {o e : Token} (ho : o.kind = .symbol .openBracket)
      (he : e.kind = .symbol .closeBracket) : Variant o e []

theorem Variant.closeBracket {y e : Token} {x : List Token} (h : Variant y e x) :
    e.kind = .symbol .closeBracket := by
  cases h <;> assumption

/-- No tokens but commas are added. -/
theorem Variant.eq_or_comma {y e t : Token} {x : List Token} (h : Variant y e x) (ht : t ∈ x) :
    t = y ∨ t = e ∨ t.kind = .symbol .comma := by
  cases h with
  | withComma _ _ hc =>
    simp only [List.mem_cons, List.not_mem_nil, or_false] at ht
    rcases ht with rfl | rfl | rfl
    · exact .inl rfl
    · exact .inr (.inr hc)
    · exact .inr (.inl rfl)
  | withoutComma => exact .inr (.inl (List.mem_singleton.1 ht))
  | withoutList => exact absurd ht List.not_mem_nil

namespace Rule

/-- Whether the brackets in the words of a rule come from lists of options, which may be written
differently without a change to the tree. -/
structure Lenient {α : Type} (r : Rule α) : Prop where
  listed : r.Every Listed
  keeps : ∀ {u v x : List Token} {y e : Token} {a : α}, r (u ++ y :: e :: v) a → Variant y e x →
    r (u ++ (x ++ v)) a

namespace Lenient

variable {α β : Type} {r s : Rule α} {f : α → Rule β}

theorem of_bracketFree (h : r.Every BracketFree) : r.Lenient where
  listed w a hw := .of_bracketFree (h w a hw)
  keeps hw hx := by
    refine absurd ?_ ((h _ _ hw).not_mem (by rw [hx.closeBracket]; rfl))
    exact List.mem_append_right _ (List.mem_cons_of_mem _ List.mem_cons_self)

theorem of_plain (h : r.Every Plain) : r.Lenient :=
  of_bracketFree (h.mono fun _ => Plain.bracketFree)

theorem token {k : Kind} (h : k.isBracket = false) : (Rule.token k).Lenient :=
  of_bracketFree (Grammar.token_bracketFree h)

theorem pure (a : α) : (Pure.pure a : Rule α).Lenient :=
  of_bracketFree (.pure a)

theorem map (hr : r.Lenient) (f : α → β) : (f <$> r).Lenient where
  listed := hr.listed.map f
  keeps := by
    rintro u v x y e _ ⟨a, ha, rfl⟩ hx
    exact ⟨a, hr.keeps ha hx, rfl⟩

theorem or (hr : r.Lenient) (hs : s.Lenient) : (r <|> s).Lenient where
  listed := hr.listed.or hs.listed
  keeps := by
    rintro u v x y e a (ha | ha) hx
    · exact .inl (hr.keeps ha hx)
    · exact .inr (hs.keeps ha hx)

theorem satisfying (hr : r.Lenient) (P : α → Prop) : (r.satisfying P).Lenient where
  listed := hr.listed.satisfying P
  keeps hw hx := ⟨hr.keeps hw.1 hx, hw.2⟩

/-- The end of a list lies in one of two words, because no word begins with a closing bracket. -/
theorem bind (hr : r.Lenient) (hf : ∀ a, (f a).Lenient) : (r >>= f).Lenient where
  listed := hr.listed.bind fun a => (hf a).listed
  keeps := by
    rintro u v x y e b ⟨p, q, a, hword, hp, hq⟩ hx
    rcases append_eq_append_pair hword.symm with ⟨v', rfl, rfl⟩ | rfl | ⟨u', rfl, rfl⟩
    · exact ⟨u ++ (x ++ v'), q, a, by simp, hr.keeps hp hx, hq⟩
    · exact absurd hx.closeBracket ((hf a).listed _ b hq).head_ne_closeBracket
    · exact ⟨p, u' ++ (x ++ v), a, by simp, hp, (hf a).keeps hq hx⟩

theorem many (hr : r.Lenient) : r.many.Lenient where
  listed := hr.listed.many
  keeps := by
    intro u v x y e as hw hx
    generalize hword : u ++ y :: e :: v = w at hw
    induction hw generalizing u with
    | nil => simp at hword
    | @cons p q a as head tail ih =>
      rcases append_eq_append_pair hword.symm with ⟨v', rfl, rfl⟩ | rfl | ⟨u', rfl, rfl⟩
      · have hcons : r.many _ _ := Many.cons (hr.keeps head hx) tail
        simpa using hcons
      · exact absurd hx.closeBracket (hr.listed.many _ as tail).head_ne_closeBracket
      · have hcons : r.many _ _ := Many.cons head (ih rfl)
        simpa using hcons

theorem separated (hr : r.Lenient) : r.separated.Lenient :=
  hr.bind fun _ => (many ((token rfl).bind fun _ => hr)).bind fun _ => pure _

/-- A word keeps its first token, unless it begins with the end of a list. -/
theorem notAt {P Q : Kind → Prop} (hr : r.Lenient) (hbegins : r.Begins P)
    (hP : ∀ k, P k → k ≠ .symbol .openBracket ∧ k ≠ .symbol .comma) : (r.notAt Q).Lenient where
  listed := hr.listed.notAt Q
  keeps := by
    rintro u v x y e a ⟨hw, hnot⟩ hx
    refine ⟨hr.keeps hw hx, ?_⟩
    cases u with
    | cons t u => exact hnot
    | nil =>
      obtain ⟨_, _, hcons, hfirst⟩ := hbegins _ _ hw
      cases hcons
      cases hx with
      | withComma => exact hnot
      | withoutComma hc => exact absurd hc (hP _ hfirst).2
      | withoutList ho => exact absurd ho (hP _ hfirst).1

theorem nested {step : Rule α → Rule α} (hstep : ∀ r, r.Lenient → (step r).Lenient) :
    (Rule.nested step).Lenient := by
  have hiterate (n : Nat) : (step^[n] nothing).Lenient := by
    induction n with
    | zero => exact ⟨fun _ _ hfalse => hfalse.elim, fun hfalse => hfalse.elim⟩
    | succ n ih =>
      rw [Function.iterate_succ_apply']
      exact hstep _ ih
  refine ⟨?_, ?_⟩
  · rintro w a ⟨n, hn⟩
    exact (hiterate n).listed w a hn
  · rintro u v x y e a ⟨n, hn⟩ hx
    exact ⟨n, (hiterate n).keeps hn hx⟩

end Lenient

end Rule

namespace Grammar

open Rule

/-- A list written differently is a list with the same options, or gone if it had none. -/
theorem optionList_keeps {u v x : List Token} {y e : Token} {os : List OptionDecl}
    (h : optionList (u ++ y :: e :: v) os) (hx : Variant y e x) :
    optionList (u ++ (x ++ v)) os ∨ (u ++ (x ++ v) = [] ∧ os = []) := by
  obtain ⟨o, entries, e', hword, ho, -, hentries⟩ := optionList_iff.1 h
  have hclose : o :: (entries ++ [e']) = (u ++ [y]) ++ e :: v := by simp [hword]
  obtain ⟨hinit, rfl⟩ := eq_of_closeBracket ho hentries hx.closeBracket hclose
  have hcases := optionEntries_cases ho hentries hinit
  cases hx with
  | @withComma c _ hopen hcomma hc he =>
    rcases hcases with ⟨hy, -⟩ | ⟨-, -, hproper⟩ | ⟨hy, -⟩
    · exact absurd hy hopen
    · refine .inl (optionList_iff.2 ⟨o, entries ++ [c], e, ?_, ho, he, .inr (.inr ?_)⟩)
      · simpa using congrArg (· ++ [c, e]) hinit.symm
      · exact bind_token_iff.2 ⟨entries, os, c, hproper, hc, rfl, rfl⟩
    · exact absurd hy hcomma
  | withoutComma hc he =>
    rcases hcases with ⟨hy, -⟩ | ⟨-, hy, -⟩ | ⟨-, init, rfl, hproper⟩
    · rw [hc] at hy
      cases hy
    · exact absurd hc hy
    · exact .inl (optionList_iff.2 ⟨o, init, e, by simp, ho, he, .inr (.inl hproper)⟩)
  | withoutList hopen he =>
    rcases hcases with ⟨-, rfl, -, rfl⟩ | ⟨hy, -⟩ | ⟨hy, -⟩
    · exact .inr ⟨rfl, rfl⟩
    · exact absurd hopen hy
    · rw [hopen] at hy
      cases hy

theorem optionList_listed : optionList.Every Listed :=
  fun _ _ h => .list h

theorem options_lenient : options.Lenient where
  listed := optionList_listed.or (.pure _)
  keeps := by
    rintro u v x y e os (h | ⟨hnil, -⟩) hx
    · exact optionList_keeps h hx
    · simp at hnil

/-- Lists of options one behind another, as one. -/
theorem optionLists_lenient : (List.flatten <$> many optionList).Lenient where
  listed := optionList_listed.many.map _
  keeps := by
    rintro u v x y e _ ⟨lists, hlists, rfl⟩ hx
    generalize hword : u ++ y :: e :: v = w at hlists
    induction hlists generalizing u with
    | nil => simp at hword
    | @cons p q os lists head tail ih =>
      rcases append_eq_append_pair hword.symm with ⟨v', rfl, rfl⟩ | rfl | ⟨u', rfl, rfl⟩
      · rcases optionList_keeps head hx with hkept | ⟨hgone, rfl⟩
        · have hcons : many optionList _ _ := Many.cons hkept tail
          exact ⟨os :: lists, by simpa using hcons, rfl⟩
        · have hrest : u ++ (x ++ (v' ++ q)) = q := by simpa using congrArg (· ++ q) hgone
          exact ⟨lists, hrest.symm ▸ tail, rfl⟩
      · exact absurd hx.closeBracket (optionList_listed.many _ lists tail).head_ne_closeBracket
      · obtain ⟨lists', hlists', hsame⟩ := ih rfl
        have hcons : many optionList _ _ := Many.cons head hlists'
        exact ⟨os :: lists', by simpa using hcons, congrArg (os ++ ·) hsame⟩

theorem extensionList_lenient : extensionList.Lenient := by
  have hlists (range : ExtensionRange) :
      (many optionList >>= fun lists => pure (range, lists.flatten)).Lenient := by
    have hpair := optionLists_lenient.map fun os => (range, os)
    rw [map_map] at hpair
    rw [bind_pure]
    exact hpair
  have hitem : extensionItem.Lenient :=
    .bind (.of_plain (numberOrRange_plain.map _)) hlists
  exact (Lenient.token rfl).bind fun _ => hitem.separated.bind fun _ =>
    (Lenient.token rfl).bind fun _ => .pure _

theorem not_bracket_of_isName {k : Kind} (h : k.isName = true ∨ k = .symbol .dot) :
    k ≠ .symbol .openBracket ∧ k ≠ .symbol .comma := by
  rcases h with h | rfl
  · constructor
    all_goals
      rintro rfl
      cases h
  · decide

theorem labelledField_lenient (label : Option FieldLabel) : (labelledField label).Lenient := by
  refine .bind (.of_plain fieldType_plain) fun _ => ?_
  refine .bind (.of_plain name_plain) fun _ => (Lenient.token rfl).bind fun _ => ?_
  refine .bind (.of_plain (number_plain.satisfying _)) fun _ => ?_
  exact options_lenient.bind fun _ => (Lenient.token rfl).bind fun _ => .pure _

theorem field_lenient : field.Lenient := by
  refine .or (.bind (.of_plain fieldLabel_plain) fun _ => labelledField_lenient _) ?_
  exact (labelledField_lenient none).notAt (Parser.labelledField_begins none)
    fun _ => not_bracket_of_isName

theorem memberField_lenient : memberField.Lenient :=
  field_lenient.notAt Parser.field_begins fun _ => not_bracket_of_isName

theorem body_lenient {ι : Type} {item : Rule ι} (hitem : item.Lenient) : (body item).Lenient := by
  refine (Lenient.token rfl).bind fun _ => .bind (.many ?_) fun _ => ?_
  · exact .or (hitem.map _) (.map (.token rfl) _)
  · exact (Lenient.token rfl).bind fun _ => .pure _

/-- A keyword, a plain head and a body. -/
theorem declaration_lenient {α β ι : Type} {k : Keyword} {head : Rule α} {item : Rule ι}
    {f : α → List ι → β} (hhead : head.Every Plain) (hitem : item.Lenient) :
    (do let _ ← keyword k; let a ← head; let items ← body item; return f a items :
      Rule β).Lenient :=
  (Lenient.token rfl).bind fun _ => (Lenient.of_plain hhead).bind fun _ =>
    (body_lenient hitem).bind fun _ => .pure _

theorem enumDecl_lenient : enumDecl.Lenient := by
  have hvalue : enumValue.Lenient := by
    refine .bind (.of_plain name_plain) fun _ => (Lenient.token rfl).bind fun _ => ?_
    refine .bind (.of_plain (number_plain.satisfying _)) fun _ => ?_
    exact options_lenient.bind fun _ => (Lenient.token rfl).bind fun _ => .pure _
  have hitem : enumItem.Lenient := by
    refine .or (.of_plain (optionStatement_plain.map _)) (.or ?_ ?_)
    · exact .of_plain (reserved_plain.map _)
    · exact .map (hvalue.notAt Parser.enumValue_begins fun _ h => not_bracket_of_isName (.inl h)) _
  exact declaration_lenient name_plain hitem

theorem oneof_lenient : oneof.Lenient :=
  declaration_lenient name_plain <|
    .or (.of_plain (optionStatement_plain.map _)) (memberField_lenient.map _)

theorem extend_lenient : extend.Lenient :=
  declaration_lenient typeName_plain field_lenient

theorem message_lenient : message.Lenient := by
  refine .nested fun inner hinner => declaration_lenient name_plain ?_
  refine .or (hinner.map _) (.or (enumDecl_lenient.map _) (.or (oneof_lenient.map _) ?_))
  refine .or (extend_lenient.map _) (.or ?_ (.or (extensionList_lenient.map _) (.or ?_ ?_)))
  · exact .of_plain (optionStatement_plain.map _)
  · exact .of_plain (reserved_plain.map _)
  · exact memberField_lenient.map _

theorem fileItem_lenient : fileItem.Lenient := by
  have hedition : edition.Every Plain :=
    (token_plain rfl rfl).bind fun _ => (token_plain rfl rfl).bind fun _ =>
      text_plain.bind fun _ => (token_plain rfl rfl).bind fun _ => .pure _
  have hpackage : package.Every Plain :=
    (token_plain rfl rfl).bind fun _ => dottedName_plain.bind fun _ =>
      (token_plain rfl rfl).bind fun _ => .pure _
  have himport : importStatement.Every Plain := by
    have hmodifier : importModifier.Every Plain :=
      .or (.map (token_plain rfl rfl) _) (.or (.map (token_plain rfl rfl) _) (.pure _))
    exact (token_plain rfl rfl).bind fun _ => hmodifier.bind fun _ =>
      text_plain.bind fun _ => (token_plain rfl rfl).bind fun _ => .pure _
  refine .or (.map (.token rfl) _) (.or (.of_plain (hedition.map _)) ?_)
  refine .or (.of_plain (hpackage.map _)) (.or (.of_plain (himport.map _)) (.or ?_ ?_))
  · exact .of_plain (optionStatement_plain.map _)
  · refine .or (enumDecl_lenient.map _) (.or (message_lenient.map _) (.or ?_ ?_))
    · exact .of_bracketFree (service_bracketFree.map _)
    · exact extend_lenient.map _

theorem file_lenient : file.Lenient :=
  .map (.satisfying (.many fileItem_lenient) _) _

end Grammar

/-! ## Reading -/

/-- Tokens that are written like a word of the grammar are read as its tree, wherever they
stand. -/
theorem parse_of_written {tokens w : List Token} {tree : File} (hderives : Grammar.file w tree)
    (hw : ∀ t ∈ w, Cursor.isClose t = false ∧ Cursor.isComment t = false)
    (h : (significant tokens).map (fun t => (t.kind, t.value)) =
      w.map fun t => (t.kind, t.value)) :
    (parse tokens).errors = [] ∧ bare (parse tokens).file = tree := by
  have hclose : Cursor.isClose (closeOf tokens) = true := by simp [Cursor.isClose, closeOf_kind]
  have hsignificant : significant (w ++ [closeOf tokens]) = w := by
    rw [significant_closed (fun t ht => (hw t ht).1) hclose, List.filter_eq_self]
    intro t ht
    rw [(hw t ht).2, Bool.not_false]
  obtain ⟨hnone, rfl⟩ := parse_of_derives (hsignificant.symm ▸ hderives)
  rw [← hsignificant] at h
  obtain ⟨hfile, herrors⟩ := seen_parse (textual_eq h)
    (textual_close _ _ (closeOf_kind tokens) (closeOf_kind _))
  rw [hnone] at herrors
  exact ⟨List.map_eq_nil_iff.1 herrors, hfile⟩

theorem listsProper_iff_of_parse {tokens : List Token} (h : (parse tokens).errors = []) :
    ListsProper (significant tokens) ↔ (significant tokens).IsChain ClosesOption :=
  (Grammar.file_lenient.listed _ _ (derives_of_parse h)).proper_iff

/-- In a file that is read without errors, all lists of options are proper just if no closing
bracket stands behind an opening one or a comma.  Nothing else rules this out: a file with such a
list and the one without it are both read without errors, and as the same tree. -/
theorem option_lists_proper_iff (tokens : List Token) (h : (parse tokens).errors = []) :
    (ListsProper (significant tokens) ↔ (significant tokens).IsChain ClosesOption) ∧
    ∀ u y e v x tokens', significant tokens = u ++ y :: e :: v → Variant y e x →
      (significant tokens').map (fun t => (t.kind, t.value)) =
        (u ++ (x ++ v)).map (fun t => (t.kind, t.value)) →
      (parse tokens').errors = [] ∧ bare (parse tokens').file = bare (parse tokens).file := by
  refine ⟨listsProper_iff_of_parse h, ?_⟩
  intro u y e v x tokens' hword hx hwritten
  have hderives := derives_of_parse h
  have hmem {t : Token} (ht : t ∈ u ++ y :: e :: v) :
      Cursor.isClose t = false ∧ Cursor.isComment t = false :=
    ne_of_mem_significant (hword ▸ ht)
  rw [hword] at hderives
  refine parse_of_written (Grammar.file_lenient.keeps hderives hx) (fun t ht => ?_) hwritten
  simp only [List.mem_append] at ht
  rcases ht with ht | ht | ht
  · exact hmem (by simp [ht])
  · rcases hx.eq_or_comma ht with rfl | rfl | hcomma
    · exact hmem (by simp)
    · exact hmem (by simp)
    · simp [Cursor.isClose, Cursor.isComment, hcomma]
  · exact hmem (by simp [ht])

/-- A field with one option, and the same field with a comma behind the option. -/
theorem option_lists_proper_iff_comma :
    let near := (tokenize "message M \x7b int32 a = 1 [deprecated = true]; \x7d").tokens
    let far := (tokenize "message M \x7b int32 a = 1 [deprecated = true,]; \x7d").tokens
    ListsProper (significant near) ∧ ¬ListsProper (significant far) ∧
      (parse far).errors = [] ∧ bare (parse far).file = bare (parse near).file := by
  intro near far
  let y : Token := ⟨.keyword .trueWord, "true", ⟨1, 39, 38, 42⟩⟩
  let e : Token := ⟨.symbol .closeBracket, "]", ⟨1, 43, 42, 43⟩⟩
  let c : Token := ⟨.symbol .comma, ",", ⟨1, 43, 42, 43⟩⟩
  let before := (significant near).take 10
  let behind := (significant near).drop 12
  obtain ⟨hnear, hends, hword, hfar, hends', hwritten⟩ : (parse near).errors = [] ∧
      (significant near).IsChain ClosesOption ∧ significant near = before ++ y :: e :: behind ∧
      (parse far).errors = [] ∧ ¬(significant far).IsChain ClosesOption ∧
      (significant far).map (fun t => (t.kind, t.value)) =
        (before ++ ([y, c, e] ++ behind)).map (fun t => (t.kind, t.value)) := by
    decide +kernel
  refine ⟨(option_lists_proper_iff near hnear).1.2 hends, ?_, ?_⟩
  · exact fun hproper => hends' ((option_lists_proper_iff far hfar).1.1 hproper)
  · exact (option_lists_proper_iff near hnear).2 before y e behind [y, c, e] far hword
      (.withComma (by decide) (by decide) rfl rfl) hwritten

/-- A comma at the end of a list behind a field is accepted, and so are empty lists behind a range
and behind an enum value. -/
theorem improper_lists_accepted :
    let scan := tokenize ("message M \x7b int32 a = 1 [deprecated = true,];" ++
      " extensions 5 to 9 []; \x7d enum E \x7b A = 0 []; \x7d")
    scan.errors = [] ∧ (parse scan.tokens).errors = [] ∧
      ¬ListsProper (significant scan.tokens) := by
  intro scan
  obtain ⟨hscan, hparse, hends⟩ : scan.errors = [] ∧ (parse scan.tokens).errors = [] ∧
      ¬(significant scan.tokens).IsChain ClosesOption := by
    decide +kernel
  exact ⟨hscan, hparse, fun hproper => hends ((listsProper_iff_of_parse hparse).1 hproper)⟩

end Schema

end ProtoDecl
