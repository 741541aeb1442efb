import ProtoDecl.Proofs.Errors
import ProtoDecl.Proofs.Progress

/-!
# What errors say they found

An error that wants something names the token that stands in its place, is reported where that token
is, and wants no token of its kind.  The token is one that the reading comes to (`Cursor.Met`): no
comment, and not behind the first end of the file.  All other errors want nothing
(`parse_consistent`).
-/

namespace ProtoDecl.Schema

namespace Cursor

variable {tokens : List Token} {t : Token}

/-- The reading of a list of tokens comes to this token. -/
def Met (tokens : List Token) (t : Token) : Prop :=
  ∃ before after, completed tokens = before ++ t :: after ∧
    (∀ u ∈ before, u.kind ≠ .endOfFile) ∧ t.kind ≠ .comment

theorem completed_extends (tokens : List Token) : ∃ rest, completed tokens = tokens ++ rest := by
  unfold completed
  split
  · exact ⟨[], (List.append_nil tokens).symm⟩
  · exact ⟨_, rfl⟩

theorem met_of_mem_significant (h : t ∈ significant tokens) : Met tokens t := by
  obtain ⟨rest, hrest⟩ := completed_extends tokens
  have hmem : t ∈ tokens.takeWhile fun u => !isClose u := (List.mem_filter.1 h).1
  obtain ⟨before, after, hsplit⟩ := List.append_of_mem hmem
  refine ⟨before, after ++ (tokens.dropWhile fun u => !isClose u) ++ rest, ?_, ?_, ?_⟩
  · calc completed tokens
        = tokens.takeWhile (fun u => !isClose u) ++ tokens.dropWhile (fun u => !isClose u) ++
            rest := by
          rw [List.takeWhile_append_dropWhile, hrest]
      _ = before ++ t :: (after ++ (tokens.dropWhile fun u => !isClose u) ++ rest) := by
          rw [hsplit]
          simp only [List.append_assoc, List.cons_append]
  · intro u hu
    have hopen := List.mem_takeWhile_imp (hsplit ▸ List.mem_append_left _ hu)
    simpa [isClose] using hopen
  · simpa [isComment] using (ne_of_mem_significant h).2

/-- The first end of the file is the last token that is met. -/
theorem met_closeOf (tokens : List Token) : Met tokens (closeOf tokens) := by
  unfold closeOf
  cases hfind : tokens.find? isClose with
  | some e =>
    obtain ⟨hclose, before, after, hsplit, hbefore⟩ := List.find?_eq_some_iff_append.1 hfind
    obtain ⟨rest, hrest⟩ := completed_extends tokens
    refine ⟨before, after ++ rest, ?_, ?_, ?_⟩
    · rw [hrest, hsplit, List.append_assoc, List.cons_append, Option.getD_some]
    · intro u hu
      simpa [isClose] using hbefore u hu
    · have hkind : e.kind = .endOfFile := by simpa [isClose] using hclose
      rw [Option.getD_some, hkind]
      decide
  | none =>
    have hopen : ∀ u ∈ tokens, u.kind ≠ .endOfFile := by
      intro u hu
      simpa [isClose] using List.find?_eq_none.1 hfind u hu
    have hclosed : ¬ isClosed tokens = true := by
      intro hclosed
      obtain ⟨u, hu, hclose⟩ := (Option.any_eq_true _ _).1 hclosed
      exact hopen u (List.mem_of_getLast? hu) (by simpa [isClose] using hclose)
    refine ⟨tokens, [], ?_, hopen, ?_⟩
    · rw [completed, if_neg hclosed, Option.getD_none]
    · exact fun hkind => Kind.noConfusion hkind

end Cursor

/-- The errors that want nothing: a statement in the wrong place, or a number that is no integer. -/
inductive SyntaxError.Plain : SyntaxError → Prop
  | lateEdition (span : Span) : Plain (.lateEdition span)
  | repeatedPackage (name : String) (span : Span) : Plain (.repeatedPackage name span)
  | fieldNumber (raw : String) (span : Span) : Plain (.fieldNumber raw span)
  | enumNumber (raw : String) (span : Span) : Plain (.enumNumber raw span)

/-- An error that was caused by a token names the token, is reported at it, and does not want it. -/
structure SyntaxError.Caused (e : SyntaxError) (t : Token) : Prop where
  span : e.span = t.span
  message : ∃ text, e.message = text ++ ", found " ++ t.describe
  unwanted : t.kind ∉ e.expected

/-- No error contradicts itself.  Either it wants nothing, or it was caused by a token of the list
that the reading comes to. -/
theorem parse_consistent (tokens : List Token) :
    ∀ e ∈ (parse tokens).errors,
      e.expected = [] ∧ e.Plain ∨ ∃ t, Cursor.Met tokens t ∧ e.Caused t := by
  intro e he
  have hjustified := parse_justified tokens e he
  cases e with
  | unexpected wanted found =>
    obtain ⟨hfound, hkind⟩ := hjustified
    have hmet : Cursor.Met tokens found := by
      rcases hfound with hmem | heof
      · rw [Cursor.view_ofTokens] at hmem
        exact Cursor.met_of_mem_significant hmem
      · rw [heof, Cursor.eof_ofTokens]
        exact Cursor.met_closeOf tokens
    exact .inr ⟨found, hmet, rfl, ⟨wanted.text, rfl⟩, hkind⟩
  | lateEdition span => exact .inl ⟨rfl, .lateEdition span⟩
  | repeatedPackage name span => exact .inl ⟨rfl, .repeatedPackage name span⟩
  | fieldNumber raw span => exact .inl ⟨rfl, .fieldNumber raw span⟩
  | enumNumber raw span => exact .inl ⟨rfl, .enumNumber raw span⟩

/-- The list has no end of the file, and the message in it no name.  The error names the end of the
file that is supplied behind the comment. -/
theorem parse_consistent_unclosed :
    let tokens : List Token := [⟨.keyword .message, "message", ⟨1, 1, 0, 7⟩⟩,
      ⟨.comment, "//", ⟨1, 9, 8, 10⟩⟩]
    ∃ e ∈ (parse tokens).errors, e.expected = [.identifier] ∧
      ∃ t, Cursor.Met tokens t ∧ e.Caused t := by
  intro tokens
  have hany : (parse tokens).errors.any (fun e => e.expected = [.identifier]) = true := by
    decide +kernel
  obtain ⟨e, he, hexpected⟩ := List.any_eq_true.1 hany
  have hexpected : e.expected = [.identifier] := of_decide_eq_true hexpected
  rcases parse_consistent tokens e he with ⟨hnone, -⟩ | hcaused
  · exact absurd (hexpected.symm.trans hnone) (List.cons_ne_nil _ _)
  · exact ⟨e, he, hexpected, hcaused⟩

end ProtoDecl.Schema
