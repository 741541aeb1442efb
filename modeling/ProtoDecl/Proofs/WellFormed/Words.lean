import Mathlib.Data.List.TakeWhile
import ProtoDecl.Proofs.Scan.Tokens
import ProtoDecl.Text.Basic

/-!
# Words

The shapes that names have.  A word begins with a letter or an underscore and goes on with letters,
digits and underscores.  Words with single dots between them are a dotted name, and a qualified name
may have one dot more in front.

A dotted name grows by a dot and a word (`isDotted_append`, `isQualified_append`), which is how it is
read.  The words come from the scan: `worded_of_mem_tokenize` says that every token which may serve
as a name is a word, and that every keyword is spelled as it should be but for the letter case.
-/

namespace ProtoDecl

namespace Text

/-- Whether a text is a word: a letter or an underscore, then letters, digits and underscores. -/
def isWord : List Char → Bool
  | [] => false
  | c :: rest => (c.isAlpha || c == '_') && rest.all fun d => d.isAlphanum || d == '_'

/-- Whether a text is made of words with single dots between them. -/
def isDotted (text : List Char) : Bool :=
  (segments '.' text).all isWord

/-- Whether a text is a dotted name, or a dot and a dotted name. -/
def isQualified : List Char → Bool
  | '.' :: rest => isDotted rest
  | text => isDotted text

/-! ## Segments -/

theorem segments_ne_nil (separator : Char) (text : List Char) : segments separator text ≠ [] := by
  fun_cases segments separator text <;> simp

theorem segments_of_not_mem {separator : Char} {text : List Char} (h : separator ∉ text) :
    segments separator text = [text] := by
  induction text with
  | nil => rfl
  | cons c rest ih =>
    have hne : ¬c = separator := fun heq => h (heq ▸ List.mem_cons_self)
    have hrest := ih fun hmem => h (List.mem_cons_of_mem c hmem)
    rw [segments, if_neg hne, hrest]

/-- What stands behind a last separator is one segment more. -/
theorem segments_append {separator : Char} (text : List Char) {last : List Char}
    (h : separator ∉ last) :
    segments separator (text ++ separator :: last) = segments separator text ++ [last] := by
  induction text with
  | nil =>
    change segments separator (separator :: last) = [[], last]
    rw [segments, if_pos rfl, segments_of_not_mem h]
  | cons c rest ih =>
    rw [List.cons_append, segments, segments]
    by_cases hc : c = separator
    · rw [if_pos hc, if_pos hc, ih]
      rfl
    · rw [if_neg hc, if_neg hc, ih]
      cases hsegments : segments separator rest with
      | nil => exact absurd hsegments (segments_ne_nil separator rest)
      | cons part others => rfl

/-! ## Dotted names -/

theorem not_mem_of_isWord {word : List Char} (h : isWord word = true) : '.' ∉ word := by
  intro hmem
  cases word with
  | nil => cases h
  | cons c rest =>
    obtain ⟨hfirst, hrest⟩ := Bool.and_eq_true_iff.1 h
    rcases List.mem_cons.1 hmem with rfl | hmem
    · exact absurd hfirst (by decide)
    · exact absurd (List.all_eq_true.1 hrest '.' hmem) (by decide)

theorem isDotted_of_isWord {word : List Char} (h : isWord word = true) : isDotted word = true := by
  rw [isDotted, segments_of_not_mem (not_mem_of_isWord h), List.all_cons, h]
  rfl

theorem isDotted_append {text word : List Char} (htext : isDotted text = true)
    (hword : isWord word = true) : isDotted (text ++ '.' :: word) = true := by
  rw [isDotted] at htext ⊢
  rw [segments_append text (not_mem_of_isWord hword), List.all_append, htext, List.all_cons, hword]
  rfl

/-- A dotted name has no dot in front. -/
theorem isQualified_of_isDotted {text : List Char} (h : isDotted text = true) :
    isQualified text = true := by
  unfold isQualified
  split
  · rw [isDotted, segments, if_pos rfl] at h
    cases h
  · exact h

theorem isQualified_append {text word : List Char} (htext : isQualified text = true)
    (hword : isWord word = true) : isQualified (text ++ '.' :: word) = true := by
  unfold isQualified at htext
  split at htext
  · exact isDotted_append htext hword
  · exact isQualified_of_isDotted (isDotted_append htext hword)

example : ["a", "_b.C1", ".a.b.c"].all (fun text => isQualified text.toList) = true := by decide

example : ["", "1a", "a.", "..a", "a..b"].any (fun text => isQualified text.toList) = false := by
  decide

end Text

/-! ## Words in a source -/

namespace Piece

theorem isWord_next {c : Char} {rest : List Char} (h : (next c rest).1.lexeme = .word) :
    Text.isWord (next c rest).1.chars = true := by
  have hword : isWordStart c = true →
      Text.isWord (c :: rest.takeWhile isWordPart) = true := by
    intro hstart
    refine Bool.and_eq_true_iff.2 ⟨hstart, List.all_eq_true.2 fun d hd => ?_⟩
    have hpart : isWordPart d = true := List.mem_takeWhile_imp hd
    exact hpart
  unfold next at h ⊢
  split at h
  · cases h
  split at h
  · cases h
  split at h
  · split at h <;> cases h
  split at h
  · dsimp only at h
    split at h <;> cases h
  split at h
  · cases h
  split at h
  · rename_i hblank hline hblock hquote hnumber hstart
    simp only [hblank, hline, hblock, hquote, hnumber, hstart]
    exact hword hstart
  · split at h <;> cases h

theorem isWord_of_mem_split {text : List Char} {piece : Piece} (h : piece ∈ split text)
    (hlexeme : piece.lexeme = .word) : Text.isWord piece.chars = true := by
  fun_induction split text with
  | case1 => exact absurd h List.not_mem_nil
  | case2 c rest ih =>
    rcases List.mem_cons.1 h with rfl | h
    · exact isWord_next hlexeme
    · exact ih h

end Piece

theorem Keyword.toLower_of_ofWord? {word : List Char} {k : Keyword} (h : ofWord? word = some k) :
    word.map Char.toLower = k.spelling.toList := by
  unfold ofWord? at h
  have hspelling := List.find?_some h
  exact (beq_iff_eq.1 hspelling).symm

/-- What is known of the text of a token. -/
structure Token.Worded (t : Token) : Prop where
  /-- What may serve as a name is a word. -/
  word : t.kind.isName = true → Text.isWord t.value.toList = true
  /-- A keyword may be written in any letter case. -/
  spelling : ∀ k, t.kind = .keyword k → t.value.toList.map Char.toLower = k.spelling.toList

/-- The token of a piece, which is a word if the piece is one. -/
theorem Piece.worded_of_token? {p : Place} {piece : Piece} {t : Token}
    (hpiece : piece.lexeme = .word → Text.isWord piece.chars = true)
    (h : piece.token? p = some t) : t.Worded := by
  have hother : t.kind.isName = false → t.Worded := by
    intro hname
    refine ⟨fun h => ?_, fun k hk => ?_⟩
    · rw [hname] at h
      cases h
    · rw [hk] at hname
      cases hname
  unfold Piece.token? at h
  split at h <;> cases h
  · exact hother rfl
  · exact hother rfl
  · exact hother rfl
  · rename_i hlexeme
    refine ⟨fun _ => ?_, fun k hk => ?_⟩
    · rw [String.toList_ofList]
      exact hpiece hlexeme
    · rw [String.toList_ofList]
      refine Keyword.toLower_of_ofWord? ?_
      unfold Piece.kindOfWord at hk
      split at hk
      · cases hk
        assumption
      · cases hk
  · exact hother rfl

/-- Every token of a source is worded. -/
theorem worded_of_mem_tokenize {source : String} {t : Token} (h : t ∈ (tokenize source).tokens) :
    t.Worded := by
  rcases token_cases h with ⟨item, hitem, ht⟩ | rfl
  · exact Piece.worded_of_token? (Piece.isWord_of_mem_split (Piece.mem_of_mem_locate hitem)) ht
  · exact ⟨nofun, nofun⟩

end ProtoDecl
