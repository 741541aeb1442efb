import ProtoDecl.Proofs.Reading.View
import ProtoDecl.Proofs.Scan.Tokens

/-!
# Tokens in the order of the text

The tokens of a source stand in the order of the text, and none overlaps another.  A cursor in such
a list is `Ordered`: the tokens ahead of it follow the last one read.

* `Ordered.later` says what reading on does: the cursor stays ordered, and the last token read and
  the next one only move on (`Later`);
* `ordered_ofTokens` says that the reading of a source begins with an ordered cursor.
-/

namespace ProtoDecl.Schema

/-- Tokens one after the other, between two offsets. -/
def Follows (lo hi : Nat) : List Token → Prop
  | [] => lo ≤ hi
  | t :: rest => lo ≤ t.span.start ∧ t.span.start < t.span.stop ∧ Follows t.span.stop hi rest

theorem follows_of_pairwise {lo hi : Nat} {w : List Token} (hle : lo ≤ hi)
    (hbounds : ∀ t ∈ w, lo ≤ t.span.start ∧ t.span.start < t.span.stop ∧ t.span.stop ≤ hi)
    (hpairwise : w.Pairwise fun t u => t.span.stop ≤ u.span.start) : Follows lo hi w := by
  induction w generalizing lo with
  | nil => exact hle
  | cons t w ih =>
    obtain ⟨hstart, hlt, hstop⟩ := hbounds t List.mem_cons_self
    obtain ⟨hfirst, hrest⟩ := List.pairwise_cons.1 hpairwise
    refine ⟨hstart, hlt, ih hstop (fun u hu => ?_) hrest⟩
    exact ⟨hfirst u hu, (hbounds u (List.mem_cons_of_mem _ hu)).2⟩

theorem Follows.mem {lo hi : Nat} {w : List Token} (h : Follows lo hi w) :
    lo ≤ hi ∧ ∀ t ∈ w, lo ≤ t.span.start ∧ t.span.start < t.span.stop ∧ t.span.stop ≤ hi := by
  induction w generalizing lo with
  | nil => exact ⟨h, nofun⟩
  | cons t w ih =>
    obtain ⟨hstart, hlt, hrest⟩ := h
    obtain ⟨hle, hmem⟩ := ih hrest
    refine ⟨by omega, List.forall_mem_cons.2 ⟨⟨hstart, hlt, hle⟩, fun u hu => ?_⟩⟩
    have hu := hmem u hu
    omega

/-- Where tokens are cut in two, some offset lies between. -/
theorem Follows.split {lo hi : Nat} {u v : List Token} (h : Follows lo hi (u ++ v)) :
    ∃ mid, Follows lo mid u ∧ Follows mid hi v := by
  induction u generalizing lo with
  | nil => exact ⟨lo, Nat.le_refl lo, h⟩
  | cons t u ih =>
    obtain ⟨hstart, hlt, hrest⟩ := h
    obtain ⟨mid, hu, hv⟩ := ih hrest
    exact ⟨mid, ⟨hstart, hlt, hu⟩, hv⟩

theorem Follows.first_le {lo hi : Nat} {w : List Token} (h : Follows lo hi w) {first : Token}
    (hfirst : w.head? = some first) : ∀ t ∈ w, first.span.start ≤ t.span.start := by
  obtain ⟨rest, rfl⟩ := List.head?_eq_some_iff.1 hfirst
  obtain ⟨-, hlt, hrest⟩ := h
  intro t ht
  rcases List.mem_cons.1 ht with rfl | ht
  · exact Nat.le_refl _
  · have hbehind := hrest.mem.2 t ht
    omega

theorem Follows.le_last {lo hi : Nat} {w : List Token} (h : Follows lo hi w) {last : Token}
    (hlast : w.getLast? = some last) : ∀ t ∈ w, t.span.stop ≤ last.span.stop := by
  obtain ⟨init, rfl⟩ := List.getLast?_eq_some_iff.1 hlast
  obtain ⟨mid, hinit, hend⟩ := h.split
  intro t ht
  rcases List.mem_append.1 ht with ht | ht
  · have hbefore := hinit.mem.2 t ht
    have hbehind := hend.mem.2 last List.mem_cons_self
    omega
  · rw [List.mem_singleton.1 ht]

namespace Cursor

variable {c d : Cursor}

/-- The tokens ahead follow the last one read, and the end of the file follows them. -/
def Ordered (c : Cursor) : Prop :=
  Follows c.lastEnd c.eof.span.start c.view

/-- Where the next token begins. -/
def front (c : Cursor) : Nat :=
  c.current.span.start

theorem front_of_view {t : Token} {w : List Token} (h : c.view = t :: w) :
    c.front = t.span.start := by
  rw [front, current_of_view h]

theorem front_of_view_nil (h : c.view = []) : c.front = c.eof.span.start := by
  rw [front, current_of_view_nil h]

theorem lastEnd_advance_of_view {t : Token} {w : List Token} (h : c.view = t :: w) :
    c.advance.lastEnd = t.span.stop := by
  rw [lastEnd_advance, h]
  rfl

theorem Ordered.lastEnd_le_front (h : Ordered c) : c.lastEnd ≤ c.front := by
  unfold Ordered at h
  cases hview : c.view with
  | nil =>
    rw [hview] at h
    rw [front_of_view_nil hview]
    exact h
  | cons t w =>
    rw [hview] at h
    rw [front_of_view hview]
    exact h.1

/-- What a cursor `d` is that a reading from `c` leads to. -/
structure Later (c d : Cursor) : Prop where
  ordered : Ordered d
  lastEnd_le : c.lastEnd ≤ d.lastEnd
  front_le : c.front ≤ d.front
  /-- If anything was read, the next token of `c` was. -/
  begun : c.front < d.lastEnd → c.current.span.stop ≤ d.lastEnd

theorem Ordered.refl_later (h : Ordered c) : Later c c where
  ordered := h
  lastEnd_le := Nat.le_refl _
  front_le := Nat.le_refl _
  begun hlt := absurd h.lastEnd_le_front (Nat.not_le.2 hlt)

theorem Ordered.later_advance (h : Ordered c) : Later c c.advance := by
  cases hview : c.view with
  | nil =>
    rw [advance_of_view_nil hview]
    exact h.refl_later
  | cons t w =>
    have hfront := h.lastEnd_le_front
    have hnext : Ordered c.advance := by
      unfold Ordered at h ⊢
      rw [lastEnd_advance_of_view hview, view_advance, eof_advance, hview]
      rw [hview] at h
      exact h.2.2
    have hlt : t.span.start < t.span.stop := by
      unfold Ordered at h
      rw [hview] at h
      exact h.2.1
    have hle := hnext.lastEnd_le_front
    rw [lastEnd_advance_of_view hview] at hle
    rw [front_of_view hview] at hfront
    refine ⟨hnext, ?_, ?_, fun _ => ?_⟩
    · rw [lastEnd_advance_of_view hview]
      omega
    · rw [front_of_view hview]
      omega
    · rw [lastEnd_advance_of_view hview, current_of_view hview]

theorem Ordered.later_passing (h : Ordered c) (n : Nat) : Later c (c.passing n) := by
  induction n generalizing c with
  | zero => exact h.refl_later
  | succ n ih =>
    have hfirst := h.later_advance
    have hrest := ih hfirst.ordered
    refine ⟨hrest.ordered, hfirst.lastEnd_le.trans hrest.lastEnd_le,
      hfirst.front_le.trans hrest.front_le, fun hlt => ?_⟩
    cases hview : c.view with
    | nil =>
      rw [passing_of_view_nil hview] at hlt
      exact absurd h.lastEnd_le_front (Nat.not_le.2 hlt)
    | cons t w =>
      rw [current_of_view hview, ← lastEnd_advance_of_view hview]
      exact hrest.lastEnd_le

theorem Ordered.later (h : Ordered c) (hleads : c.Leads d) : Later c d := by
  obtain ⟨n, new, rfl⟩ := hleads
  have hpassing := h.later_passing n
  exact ⟨hpassing.ordered, hpassing.lastEnd_le, hpassing.front_le, hpassing.begun⟩

/-! ## Sources -/

theorem isClose_eq_false {t : Token} (h : t.kind ≠ .endOfFile) : isClose t = false := by
  simpa [isClose] using h

/-- The end of the file, as the reading of a source sees it, is at the end of the source. -/
theorem eof_ofTokens_tokenize (source : String) :
    (ofTokens (tokenize source).tokens).eof.span.start = source.utf8ByteSize ∧
      (ofTokens (tokenize source).tokens).eof.span.stop = source.utf8ByteSize := by
  obtain ⟨tokens, e, htokens, hkind, -, hstart, hstop, hothers⟩ := tokenize_closed source
  have hnone : tokens.find? isClose = none :=
    List.find?_eq_none.2 fun t ht => by simp [isClose_eq_false (hothers t ht).1]
  have hclose : isClose e = true := by simp [isClose, hkind]
  rw [eof_ofTokens, closeOf, htokens, List.find?_append, hnone, Option.none_or,
    List.find?_cons_of_pos hclose]
  exact ⟨hstart, hstop⟩

theorem ordered_ofTokens (source : String) : Ordered (ofTokens (tokenize source).tokens) := by
  obtain ⟨tokens, e, htokens, hkind, -, hstart, -, hothers⟩ := tokenize_closed source
  have hordered := tokenize_ordered source
  rw [htokens, List.pairwise_append] at hordered
  have hsublist : (significant (tokenize source).tokens).Sublist tokens := by
    have hclose : isClose e = true := by simp [isClose, hkind]
    rw [significant, htokens, List.takeWhile_append_of_pos fun t ht => by
      simp [isClose_eq_false (hothers t ht).1], List.takeWhile_cons_of_neg (by simp [hclose]),
      List.append_nil]
    exact List.filter_sublist
  rw [Ordered, (eof_ofTokens_tokenize source).1, view_ofTokens]
  refine follows_of_pairwise (Nat.zero_le _) (fun t ht => ?_) ?_
  · have hmem := hsublist.subset ht
    refine ⟨Nat.zero_le _, (hothers t hmem).2, ?_⟩
    rw [← hstart]
    exact (hordered.2.2 t hmem e List.mem_cons_self).2
  · exact (hordered.1.sublist hsublist).imp And.right

end Cursor

end ProtoDecl.Schema
