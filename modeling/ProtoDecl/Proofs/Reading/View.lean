import Mathlib.Data.List.TakeWhile
import ProtoDecl.Schema.Cursor

/-!
# What a cursor sees

A cursor stands in a list that still holds comments, and tokens behind the end of the file.  None of
these matter.  `Cursor.view` is what does: the tokens ahead that are no comments, up to the first
that closes the file, which is `Cursor.eof`.

This file says what each operation of a cursor is on its view, so that no later proof opens one.

* `current_eq`, `view_advance` and `view_after`: looking is at the head of the view, moving takes
  the tail of it;
* `peek_eq` and `startsExtend_eq`: looking ahead sees the view too.  The list may go on behind the
  end of the file, so this holds only as far as the view reaches, and one place further;
* `remaining_after_lt_iff`: a cursor makes progress in the list exactly if it does in the view;
* `Leads.extent`: the span of what was read reaches from its first token through its last;
* `view_ofTokens`: a reading begins with the significant tokens of its list.
-/

namespace ProtoDecl.Schema

/-- The tokens of a list that matter: no comments, and nothing from the end of the file on. -/
def significant (tokens : List Token) : List Token :=
  (tokens.takeWhile fun t => !Cursor.isClose t).filter fun t => !Cursor.isComment t

/-- The first token of a list that closes the file, supplied if there is none. -/
def closeOf (tokens : List Token) : Token :=
  (tokens.find? Cursor.isClose).getD (Cursor.closeAfter tokens)

/-- The span reaches from the first of the tokens through the last. -/
def Extent (w : List Token) (s : Span) : Prop :=
  ∃ first last, w.head? = some first ∧ w.getLast? = some last ∧ s = first.span.through last.span

theorem extent_singleton_iff {t : Token} {s : Span} : Extent [t] s ↔ s = t.span := by
  simp [Extent, Span.through]

namespace Cursor

variable {c d : Cursor} {t u : Token} {w : List Token}

/-- The significant tokens ahead. -/
def view (c : Cursor) : List Token :=
  c.visible.takeWhile fun t => !isClose t

/-- The end of the file. -/
def eof (c : Cursor) : Token :=
  (c.visible.find? isClose).getD c.close

/-! ## The view in the list -/

theorem isComment_eq_false_of_isClose (h : isClose t = true) : isComment t = false := by
  have hk : t.kind = .endOfFile := by simpa [isClose] using h
  simp [isComment, hk]

/-- The three forms of the list ahead: it is at an end, it has an end of the file next, or it has a
significant token next. -/
theorem ahead_cases (c : Cursor) :
    c.ahead = [] ∨ (∃ t rest, c.ahead = t :: rest ∧ isClose t = true) ∨
      (∃ t rest, c.ahead = t :: rest ∧ isClose t = false ∧ isComment t = false) := by
  cases h : c.ahead with
  | nil => exact .inl rfl
  | cons t rest =>
    have hrests := c.rests t (by rw [h]; rfl)
    cases hclose : isClose t with
    | true => exact .inr (.inl ⟨t, rest, rfl, hclose⟩)
    | false => exact .inr (.inr ⟨t, rest, rfl, hclose, by simpa [isComment] using hrests⟩)

theorem filter_dropWhile_isComment (tokens : List Token) :
    (tokens.dropWhile isComment).filter (fun t => !isComment t) =
      tokens.filter fun t => !isComment t := by
  induction tokens with
  | nil => rfl
  | cons t rest ih =>
    cases h : isComment t with
    | true => simp [h, ih]
    | false => simp [h]

/-- Behind the view, the list goes on with the end of the file or is at an end. -/
theorem visible_eq (c : Cursor) :
    ∃ rest, c.visible = c.view ++ rest ∧ rest.headD c.close = c.eof := by
  refine ⟨c.visible.dropWhile fun t => !isClose t, ?_, ?_⟩
  · exact List.takeWhile_append_dropWhile.symm
  · unfold eof
    induction c.visible with
    | nil => rfl
    | cons t rest ih =>
      cases h : isClose t with
      | true => simp [h]
      | false => simpa [h] using ih

theorem eof_kind (c : Cursor) : c.eof.kind = .endOfFile := by
  unfold eof
  cases h : c.visible.find? isClose with
  | none => exact c.close_kind
  | some t => simpa [isClose] using List.find?_some h

theorem ne_of_mem_view (h : t ∈ c.view) : t.kind ≠ .endOfFile ∧ t.kind ≠ .comment := by
  constructor
  · simpa [isClose] using List.mem_takeWhile_imp h
  · have hmem : t ∈ c.visible := (List.takeWhile_sublist _).subset h
    simpa [isComment] using (List.mem_filter.1 hmem).2

/-! ## Looking -/

theorem current_eq (c : Cursor) : c.current = c.view.headD c.eof := by
  rcases ahead_cases c with h | ⟨t, rest, h, hclose⟩ | ⟨t, rest, h, hclose, hcomment⟩
  · simp [current, view, eof, visible, h]
  · simp [current, view, eof, visible, h, hclose, isComment_eq_false_of_isClose hclose]
  · simp [current, view, visible, h, hclose, hcomment]

theorem current_of_view (h : c.view = t :: w) : c.current = t := by
  rw [current_eq, h]
  rfl

theorem current_of_view_nil (h : c.view = []) : c.current = c.eof := by
  rw [current_eq, h]
  rfl

theorem current_kind_eq_endOfFile_iff : c.current.kind = .endOfFile ↔ c.view = [] := by
  cases hview : c.view with
  | nil => simp [current_of_view_nil hview, eof_kind]
  | cons t w =>
    have ht : t ∈ c.view := by simp [hview]
    simp [current_of_view hview, (ne_of_mem_view ht).1]

theorem peek_eq {n : Nat} (h : n ≤ c.view.length) :
    c.peek n = (c.view.drop n).headD c.eof := by
  obtain ⟨rest, hvisible, hrest⟩ := visible_eq c
  rw [peek, hvisible]
  rcases Nat.lt_or_eq_of_le h with hlt | rfl
  · rw [List.getD_eq_getElem?_getD, List.getElem?_append_left hlt, List.drop_eq_getElem_cons hlt,
      List.getElem?_eq_getElem hlt]
    rfl
  · rw [List.getD_eq_getElem?_getD, List.getElem?_append_right (Nat.le_refl _), Nat.sub_self,
      ← List.head?_eq_getElem?, ← List.headD_eq_head?_getD, List.drop_length, hrest]
    rfl

theorem peek_one (h : c.view = t :: w) : c.peek 1 = w.headD c.eof := by
  rw [peek_eq (by rw [h]; exact Nat.le_add_left 1 _), h]
  rfl

theorem peek_two (h : c.view = t :: u :: w) : c.peek 2 = w.headD c.eof := by
  rw [peek_eq (by rw [h]; exact Nat.le_add_left 2 _), h]
  rfl

/-- The end of the file ends every sequence of names, so what lies behind it is not looked at. -/
theorem namesThenBrace_append (w rest : List Token) (h : ∀ t ∈ rest.head?, t.kind = .endOfFile) :
    namesThenBrace (w ++ rest) = namesThenBrace w := by
  fun_induction namesThenBrace w with
  | case1 name next w ih => simp [namesThenBrace, ih]
  | case2 w hshort =>
    match w, hshort with
    | [], _ =>
      match rest with
      | [] => rfl
      | [t] => rfl
      | t :: u :: more =>
        have ht : t.kind = .endOfFile := h t rfl
        simp [namesThenBrace, ht, Kind.isName]
    | [name], _ =>
      match rest with
      | [] => rfl
      | t :: more =>
        have ht : t.kind = .endOfFile := h t rfl
        simp [namesThenBrace, ht]
    | name :: next :: w, hshort => exact absurd rfl (hshort name next w)

/-- Whether some tokens begin with a dotted name, possibly with a leading dot, and an opening
brace. -/
def typeThenBrace : List Token → Bool
  | [] => false
  | t :: rest => if t.kind == .symbol .dot then namesThenBrace rest else namesThenBrace (t :: rest)

theorem startsExtend_eq (h : c.view = t :: w) : c.startsExtend = typeThenBrace w := by
  obtain ⟨rest, hvisible, hrest⟩ := visible_eq c
  have hhead : ∀ t ∈ rest.head?, t.kind = .endOfFile := by
    intro u hu
    rw [List.headD_eq_head?_getD, Option.mem_def.1 hu, Option.getD_some] at hrest
    rw [hrest]
    exact eof_kind c
  unfold startsExtend
  rw [hvisible, h, List.cons_append, List.tail_cons]
  cases w with
  | nil =>
    match rest with
    | [] => rfl
    | u :: more =>
      have hu : u.kind = .endOfFile := hhead u rfl
      have hnames : namesThenBrace (u :: more) = false :=
        namesThenBrace_append [] (u :: more) hhead
      simp [typeThenBrace, hu, hnames]
  | cons u w =>
    have hw := namesThenBrace_append w rest hhead
    have huw := namesThenBrace_append (u :: w) rest hhead
    rw [List.cons_append] at huw ⊢
    simp only [hw, huw, typeThenBrace]

/-! ## Moving -/

theorem view_advance (c : Cursor) : c.advance.view = c.view.tail := by
  rcases ahead_cases c with h | ⟨t, rest, h, hclose⟩ | ⟨t, rest, h, hclose, hcomment⟩
  · simp [advance, view, visible, h]
  · simp [advance, view, visible, h, hclose, isComment_eq_false_of_isClose hclose]
  · simp [advance, view, visible, h, hclose, hcomment, filter_dropWhile_isComment]

theorem eof_advance (c : Cursor) : c.advance.eof = c.eof := by
  rcases ahead_cases c with h | ⟨t, rest, h, hclose⟩ | ⟨t, rest, h, hclose, hcomment⟩
  · simp [advance, h]
  · simp [advance, h, hclose]
  · simp [advance, eof, visible, h, hclose, hcomment, filter_dropWhile_isComment]

theorem lastEnd_advance (c : Cursor) :
    c.advance.lastEnd = (c.view.head?.map fun t => t.span.stop).getD c.lastEnd := by
  rcases ahead_cases c with h | ⟨t, rest, h, hclose⟩ | ⟨t, rest, h, hclose, hcomment⟩
  · simp [advance, view, visible, h]
  · simp [advance, view, visible, h, hclose, isComment_eq_false_of_isClose hclose]
  · simp [advance, view, visible, h, hclose, hcomment]

theorem remaining_advance_lt_iff (c : Cursor) :
    c.advance.remaining < c.remaining ↔ c.view ≠ [] := by
  rcases ahead_cases c with h | ⟨t, rest, h, hclose⟩ | ⟨t, rest, h, hclose, hcomment⟩
  · simp [advance, view, visible, h]
  · simp [advance, view, visible, h, hclose, isComment_eq_false_of_isClose hclose]
  · have hle := (List.dropWhile_suffix isComment (l := rest)).length_le
    have hne : c.view ≠ [] := by simp [view, visible, h, hclose, hcomment]
    have hlt : c.advance.remaining < c.remaining := by
      simp only [advance, remaining, h, hclose, List.length_cons]
      simp
      omega
    exact ⟨fun _ => hne, fun _ => hlt⟩

@[simp] theorem view_report (c : Cursor) (e : SyntaxError) : (c.report e).view = c.view :=
  rfl

@[simp] theorem eof_report (c : Cursor) (e : SyntaxError) : (c.report e).eof = c.eof :=
  rfl

@[simp] theorem view_after (c : Cursor) (n : Nat) (new : List SyntaxError) :
    (c.after n new).view = c.view.drop n := by
  change (c.passing n).view = c.view.drop n
  induction n generalizing c with
  | zero => rfl
  | succ n ih => rw [passing, ih, view_advance, List.drop_tail]

@[simp] theorem eof_after (c : Cursor) (n : Nat) (new : List SyntaxError) :
    (c.after n new).eof = c.eof := by
  change (c.passing n).eof = c.eof
  induction n generalizing c with
  | zero => rfl
  | succ n ih => rw [passing, ih, eof_advance]

/-- At the end of the file, moves lead nowhere. -/
theorem advance_of_view_nil (h : c.view = []) : c.advance = c := by
  rcases ahead_cases c with h' | ⟨t, rest, h', hclose⟩ | ⟨t, rest, h', hclose, hcomment⟩
  · simp [advance, h']
  · simp [advance, h', hclose]
  · simp [view, visible, h', hclose, hcomment] at h

theorem passing_of_view_nil (h : c.view = []) (n : Nat) : c.passing n = c := by
  induction n with
  | zero => rfl
  | succ n ih => rw [passing, advance_of_view_nil h, ih]

theorem remaining_after_lt_iff (c : Cursor) (n : Nat) (new : List SyntaxError) :
    (c.after n new).remaining < c.remaining ↔ 0 < n ∧ c.view ≠ [] := by
  change (c.passing n).remaining < c.remaining ↔ _
  cases n with
  | zero => simp [passing]
  | succ n =>
    constructor
    · intro h
      refine ⟨Nat.succ_pos n, fun hnil => ?_⟩
      rw [passing_of_view_nil hnil] at h
      exact Nat.lt_irrefl _ h
    · rintro ⟨-, hne⟩
      exact Nat.lt_of_le_of_lt (remaining_passing_le c.advance n)
        ((remaining_advance_lt_iff c).2 hne)

theorem remaining_after_eq_iff (c : Cursor) (n : Nat) (new : List SyntaxError) :
    (c.after n new).remaining = c.remaining ↔ n = 0 ∨ c.view = [] := by
  have hle := remaining_passing_le c n
  have hlt := remaining_after_lt_iff c n new
  change (c.passing n).remaining < c.remaining ↔ _ at hlt
  change (c.passing n).remaining = c.remaining ↔ _
  constructor
  · intro heq
    by_contra hne
    rw [not_or] at hne
    have := hlt.2 ⟨Nat.pos_of_ne_zero hne.1, hne.2⟩
    omega
  · intro h
    by_contra hne
    obtain ⟨hpos, hview⟩ := hlt.1 (by omega)
    rcases h with h | h
    · omega
    · exact hview h

theorem Leads.eof_eq (h : c.Leads d) : d.eof = c.eof := by
  obtain ⟨n, new, rfl⟩ := h
  exact eof_after c n new

/-- What is seen later is the end of what is seen before. -/
theorem Leads.view_suffix (h : c.Leads d) : d.view <:+ c.view := by
  obtain ⟨n, new, rfl⟩ := h
  rw [view_after]
  exact List.drop_suffix n c.view

/-- What was read ends where the last token that was passed ends. -/
theorem Leads.lastEnd_eq (h : c.Leads d) :
    ∃ w, c.view = w ++ d.view ∧
      d.lastEnd = (w.getLast?.map fun t => t.span.stop).getD c.lastEnd := by
  obtain ⟨n, new, rfl⟩ := h
  change ∃ w, c.view = w ++ (c.passing n).view ∧
    (c.passing n).lastEnd = (w.getLast?.map fun t => t.span.stop).getD c.lastEnd
  induction n generalizing c with
  | zero => exact ⟨[], rfl, rfl⟩
  | succ n ih =>
    cases hview : c.view with
    | nil => exact ⟨[], by rw [passing_of_view_nil hview, hview, List.nil_append],
        by rw [passing_of_view_nil hview, List.getLast?_nil, Option.map_none, Option.getD_none]⟩
    | cons t rest =>
      obtain ⟨w, hw, hlast⟩ := @ih c.advance
      refine ⟨t :: w, ?_, ?_⟩
      · rw [List.cons_append, passing, ← hw, view_advance, hview, List.tail_cons]
      · rw [passing, hlast, lastEnd_advance, hview, List.getLast?_cons]
        cases w.getLast? <;> rfl

/-- What was read from some cursor on has the span that is taken at the end. -/
theorem Leads.extent (h : c.Leads d) (hw : c.view = w ++ d.view) (hne : w ≠ []) :
    Extent w (d.spanFrom c.current.span) := by
  obtain ⟨v, hv, hlast⟩ := h.lastEnd_eq
  obtain rfl : v = w := List.append_cancel_right (hv.symm.trans hw)
  obtain ⟨first, rest, rfl⟩ := List.exists_cons_of_ne_nil hne
  have hfirst : c.current = first := current_of_view hw
  have hend := List.getLast?_eq_some_getLast hne
  refine ⟨first, (first :: rest).getLast hne, rfl, hend, ?_⟩
  rw [Cursor.spanFrom, hlast, hfirst, hend]
  rfl

/-- Where the view got shorter, the cursor made progress. -/
theorem Leads.remaining_lt (h : c.Leads d) (hlt : d.view.length < c.view.length) :
    d.remaining < c.remaining := by
  obtain ⟨n, new, rfl⟩ := h
  rw [view_after, List.length_drop] at hlt
  refine (remaining_after_lt_iff c n new).2 ⟨by omega, fun hnil => ?_⟩
  rw [hnil] at hlt
  simp at hlt

/-! ## Beginnings -/

theorem takeWhile_filter_comm (tokens : List Token) :
    (tokens.filter fun t => !isComment t).takeWhile (fun t => !isClose t) =
      (tokens.takeWhile fun t => !isClose t).filter fun t => !isComment t := by
  induction tokens with
  | nil => rfl
  | cons t rest ih =>
    cases hclose : isClose t with
    | true => simp [hclose, isComment_eq_false_of_isClose hclose]
    | false => cases hcomment : isComment t <;> simp [hclose, hcomment, ih]

theorem find?_filter_isComment (tokens : List Token) :
    (tokens.filter fun t => !isComment t).find? isClose = tokens.find? isClose := by
  induction tokens with
  | nil => rfl
  | cons t rest ih =>
    cases hclose : isClose t with
    | true => simp [hclose, isComment_eq_false_of_isClose hclose]
    | false => cases hcomment : isComment t <;> simp [hclose, hcomment, ih]

/-- A list is what stands before its closing token, and that token, unless it was supplied. -/
theorem eq_inner_append (tokens : List Token) (h : isClosed tokens = true) :
    tokens = inner tokens ++ [closing tokens] := by
  cases hlast : tokens.getLast? with
  | none => simp [isClosed, hlast] at h
  | some t =>
    rw [inner, closing, if_pos h, if_pos h, hlast, Option.getD_some]
    have hne : tokens ≠ [] := by rintro rfl; simp at hlast
    have hget : tokens.getLast hne = t := by
      rw [List.getLast?_eq_some_getLast hne] at hlast
      exact Option.some.inj hlast
    rw [← hget]
    exact (List.dropLast_concat_getLast hne).symm

theorem view_ofTokens (tokens : List Token) : (ofTokens tokens).view = significant tokens := by
  unfold view visible ofTokens significant
  rw [filter_dropWhile_isComment, takeWhile_filter_comm]
  cases h : isClosed tokens with
  | false => simp [inner, h]
  | true =>
    have hclose : isClose (closing tokens) = true := by simp [isClose, closing_kind]
    conv => rhs; rw [eq_inner_append tokens h]
    rw [List.takeWhile_append]
    split
    · rename_i hall
      rw [(List.takeWhile_prefix _).eq_of_length hall]
      simp [hclose]
    · rfl

theorem eof_ofTokens (tokens : List Token) : (ofTokens tokens).eof = closeOf tokens := by
  unfold eof visible ofTokens closeOf
  rw [filter_dropWhile_isComment, find?_filter_isComment]
  cases h : isClosed tokens with
  | false => simp [inner, closing, h]
  | true =>
    have hclose : isClose (closing tokens) = true := by simp [isClose, closing_kind]
    conv => rhs; rw [eq_inner_append tokens h]
    rw [List.find?_append, List.find?_cons_of_pos hclose]
    cases (inner tokens).find? isClose <;> rfl

end Cursor

/-! ## The significant tokens as a list of their own -/

theorem mem_of_mem_significant {tokens : List Token} {t : Token} (h : t ∈ significant tokens) :
    t ∈ tokens :=
  (List.takeWhile_sublist _).subset (List.mem_filter.1 h).1

theorem ne_of_mem_significant {tokens : List Token} {t : Token} (ht : t ∈ significant tokens) :
    Cursor.isClose t = false ∧ Cursor.isComment t = false := by
  obtain ⟨hmem, hcomment⟩ := List.mem_filter.1 ht
  have hopen := List.mem_takeWhile_imp hmem
  exact ⟨by simpa using hopen, by simpa using hcomment⟩

/-- Of tokens that none closes and one that does, those matter that are no comments. -/
theorem significant_closed {tokens : List Token} {e : Token}
    (hopen : ∀ t ∈ tokens, Cursor.isClose t = false) (he : Cursor.isClose e = true) :
    significant (tokens ++ [e]) = tokens.filter fun t => !Cursor.isComment t := by
  have hopen : ∀ t ∈ tokens, (!Cursor.isClose t) = true := by
    intro t ht
    rw [hopen t ht, Bool.not_false]
  rw [significant, List.takeWhile_append_of_pos hopen, List.takeWhile_cons_of_neg (by simp [he]),
    List.append_nil]

theorem closeOf_closed {tokens : List Token} {e : Token}
    (hopen : ∀ t ∈ tokens, Cursor.isClose t = false) (he : Cursor.isClose e = true) :
    closeOf (tokens ++ [e]) = e := by
  have hnone : tokens.find? Cursor.isClose = none := by
    rw [List.find?_eq_none]
    intro t ht
    rw [hopen t ht]
    exact Bool.false_ne_true
  rw [closeOf, List.find?_append, hnone, Option.none_or, List.find?_cons_of_pos he,
    Option.getD_some]

theorem significant_concat (tokens : List Token) {e : Token} (he : Cursor.isClose e = true) :
    significant (significant tokens ++ [e]) = significant tokens := by
  rw [significant_closed (fun t ht => (ne_of_mem_significant ht).1) he, List.filter_eq_self]
  intro t ht
  rw [(ne_of_mem_significant ht).2, Bool.not_false]

theorem closeOf_concat (tokens : List Token) {e : Token} (he : Cursor.isClose e = true) :
    closeOf (significant tokens ++ [e]) = e :=
  closeOf_closed (fun _ ht => (ne_of_mem_significant ht).1) he

end ProtoDecl.Schema
