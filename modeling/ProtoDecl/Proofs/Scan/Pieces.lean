import ProtoDecl.Token.Scan
import Mathlib.Data.List.Basic

/-!
# What pieces are, and where they stand

Two kinds of fact about the pieces of a text, on which those about its tokens rest.

* What a piece is says how its characters look: `Content` describes what stands between the quotes
  of a string literal together with what it denotes, and `Faulty` the characters of a fault, given
  the text behind it.  Every piece that `Piece.next` cuts off looks as it should (`next_looks`).
* A located piece stands in the text where its place says (`mem_locate_split`).  Located pieces are
  in order (`pairwise_locate`), and no character lies outside of them (`exists_mem_locate`).
-/

namespace ProtoDecl

/-! ## The content of string literals -/

/-- The character that stands for another one behind a backslash. -/
inductive Escape : Char → Char → Prop
  | newline : Escape 'n' '\n'
  | tab : Escape 't' '\t'
  | carriageReturn : Escape 'r' '\r'
  | itself {c : Char} (h : c ∉ ['n', 't', 'r']) : Escape c c

/-- What may stand between the quotes of a string literal, and what it denotes. -/
inductive Content : List Char → List Char → Prop
  | nil : Content [] []
  | escape {c d : Char} {body value : List Char} (h : Escape c d) (rest : Content body value) :
      Content ('\\' :: c :: body) (d :: value)
  | plain {c : Char} {body value : List Char} (h : c ∉ ['"', '\n', '\\'])
      (rest : Content body value) : Content (c :: body) (c :: value)

/-- What may follow an opening quote that is never closed, up to the end of the text or a line
break that no backslash stands before; and the text behind it. -/
inductive Unclosed : List Char → List Char → Prop
  | ends : Unclosed [] []
  | breaks (after : List Char) : Unclosed [] ('\n' :: after)
  /-- A backslash ends the text. -/
  | backslash : Unclosed ['\\'] []
  | escape (c : Char) {body after : List Char} (rest : Unclosed body after) :
      Unclosed ('\\' :: c :: body) after
  | plain {c : Char} {body after : List Char} (h : c ∉ ['"', '\n', '\\'])
      (rest : Unclosed body after) : Unclosed (c :: body) after

/-- The characters of a fault, and the text behind them. -/
inductive Faulty : LexicalFault → List Char → List Char → Prop
  | unknown (c : Char) (after : List Char) : Faulty (.unknown c) [c] after
  | openText {body after : List Char} (h : Unclosed body after) :
      Faulty .openText ('"' :: body) after
  /-- The rest of the text, where nothing ends the comment. -/
  | openComment {body : List Char} (h : ¬['*', '/'] <:+: body) :
      Faulty .openComment ('/' :: '*' :: body) []

theorem escape_unescape (c : Char) : Escape c (Piece.unescape c) := by
  unfold Piece.unescape
  split
  · subst c
    exact .newline
  · split
    · subst c
      exact .tab
    · split
      · subst c
        exact .carriageReturn
      · exact .itself (by simp [*])

namespace Piece

/-- A scan that finds the closing quote has read content before it. -/
theorem scanText_closed {text : List Char} (h : (scanText text).closed = true) :
    ∃ body, (scanText text).taken = body ++ ['"'] ∧ Content body (scanText text).value := by
  fun_induction scanText text with
  | case1 => simp at h
  | case2 c rest scan ih =>
    obtain ⟨body, htaken, hbody⟩ := ih h
    exact ⟨'\\' :: c :: body, by simp [scan, htaken], .escape (escape_unescape c) hbody⟩
  | case3 c rest => exact ⟨[], by simp_all, .nil⟩
  | case4 c rest => simp at h
  | case5 c rest => simp at h
  | case6 c rest _ hquote hbreak hslash scan ih =>
    obtain ⟨body, htaken, hbody⟩ := ih h
    exact ⟨c :: body, by simp [scan, htaken], .plain (by simp [*]) hbody⟩

theorem scanText_open {text : List Char} (h : (scanText text).closed = false) :
    Unclosed (scanText text).taken (scanText text).rest := by
  fun_induction scanText text with
  | case1 => exact .ends
  | case2 c rest scan ih => exact .escape c (ih h)
  | case3 rest => simp at h
  | case4 rest => exact .breaks rest
  | case5 rest hlast =>
    cases rest with
    | nil => exact .backslash
    | cons c rest => exact (hlast c rest rfl rfl).elim
  | case6 c rest _ hquote hbreak hslash scan ih => exact .plain (by simp [*]) (ih h)

theorem not_infix_of_splitComment {text : List Char} (h : splitComment text = none) :
    ¬['*', '/'] <:+: text := by
  fun_induction splitComment text with
  | case1 rest => simp at h
  | case2 c rest hstart ih =>
    rw [List.infix_cons_iff, not_or]
    refine ⟨?_, ih (by simpa using h)⟩
    rintro ⟨after, hafter⟩
    obtain ⟨rfl, rfl⟩ := List.cons.inj hafter
    exact hstart after rfl rfl
  | case3 => simp

/-! ## One piece -/

/-- How a piece looks that is cut off before `after`. -/
def Looks (piece : Piece) (after : List Char) : Prop :=
  match piece.lexeme with
  | .blank => ∃ c, piece.chars = [c] ∧ Text.isBlank c = true
  | .text value => ∃ body, piece.chars = '"' :: (body ++ ['"']) ∧ Content body value
  | .unknown c => Faulty (.unknown c) piece.chars after
  | .openText => Faulty .openText piece.chars after
  | .openComment => Faulty .openComment piece.chars after
  | .symbol mark => piece.chars = [mark.char]
  | .comment | .number | .word => True

theorem next_looks (c : Char) (rest : List Char) :
    (next c rest).1.Looks (next c rest).2 := by
  unfold next
  split
  · exact ⟨c, rfl, ‹_›⟩
  split
  · trivial
  split
  · rename_i hstart
    split
    · trivial
    · rename_i hnone
      obtain ⟨rfl, hstar⟩ : c = '/' ∧ rest.head? = some '*' := by simpa using hstart
      obtain ⟨body, rfl⟩ := List.head?_eq_some_iff.1 hstar
      exact .openComment (not_infix_of_splitComment hnone)
  split
  · rename_i hquote
    obtain rfl : c = '"' := by simpa using hquote
    cases hclosed : (scanText rest).closed with
    | true =>
      obtain ⟨body, htaken, hbody⟩ := scanText_closed hclosed
      simp only [hclosed, htaken]
      exact ⟨body, rfl, hbody⟩
    | false =>
      simp only [hclosed]
      exact .openText (scanText_open hclosed)
  split
  · trivial
  split
  · trivial
  split
  · rename_i hmark
    exact congrArg (fun c => [c]) (Symbol.char_of_ofChar? hmark).symm
  · exact .unknown c rest

/-! ## Located pieces -/

end Piece

/-- The number of bytes of some characters. -/
def bytes (text : List Char) : Nat :=
  (String.ofList text).utf8ByteSize

@[simp] theorem bytes_nil : bytes [] = 0 := by
  simp [bytes]

@[simp] theorem bytes_cons (c : Char) (text : List Char) :
    bytes (c :: text) = c.utf8Size + bytes text := by
  simp [bytes, String.ofList_cons, String.utf8ByteSize_append]

@[simp] theorem bytes_append (a b : List Char) : bytes (a ++ b) = bytes a + bytes b := by
  simp [bytes, String.ofList_append, String.utf8ByteSize_append]

theorem bytes_pos {text : List Char} (h : text ≠ []) : 0 < bytes text := by
  cases text with
  | nil => exact absurd rfl h
  | cons c text =>
    have := c.utf8Size_pos
    rw [bytes_cons]
    omega

theorem Place.offset_step (p : Place) (c : Char) : (p.step c).offset = p.offset + c.utf8Size := by
  unfold step
  split <;> rfl

@[simp] theorem Place.offset_advance (p : Place) (text : List Char) :
    (p.advance text).offset = p.offset + bytes text := by
  induction text generalizing p with
  | nil => simp [advance]
  | cons c text ih =>
    have hstep := ih (p.step c)
    rw [offset_step] at hstep
    rw [bytes_cons, ← Nat.add_assoc, ← hstep]
    rfl

namespace Piece

theorem offset_le_of_mem_locate {p : Place} {pieces : List Piece} {item : Place × Piece}
    (h : item ∈ locate p pieces) : p.offset ≤ item.1.offset := by
  induction pieces generalizing p with
  | nil => exact absurd h (List.not_mem_nil)
  | cons piece pieces ih =>
    rcases List.mem_cons.1 h with rfl | h
    · exact Nat.le_refl _
    · have := ih h
      rw [Place.offset_advance] at this
      omega

theorem mem_of_mem_locate {p : Place} {pieces : List Piece} {item : Place × Piece}
    (h : item ∈ locate p pieces) : item.2 ∈ pieces := by
  induction pieces generalizing p with
  | nil => exact absurd h List.not_mem_nil
  | cons piece pieces ih =>
    rcases List.mem_cons.1 h with rfl | h
    · exact List.mem_cons_self
    · exact List.mem_cons_of_mem piece (ih h)

/-- Each piece begins at or behind the end of those before. -/
theorem pairwise_locate (p : Place) (pieces : List Piece) :
    (locate p pieces).Pairwise fun a b => a.1.offset + bytes a.2.chars ≤ b.1.offset := by
  induction pieces generalizing p with
  | nil => exact .nil
  | cons piece pieces ih =>
    refine .cons (fun item h => ?_) (ih _)
    have := offset_le_of_mem_locate h
    rwa [Place.offset_advance] at this

/-- A piece stands in its text where its place says, and looks as it should. -/
theorem mem_locate_split {p : Place} {text : List Char} {item : Place × Piece}
    (h : item ∈ locate p (split text)) :
    ∃ before after, text = before ++ item.2.chars ++ after ∧ item.1 = p.advance before ∧
      item.2.chars ≠ [] ∧ item.2.Looks after := by
  fun_induction split text generalizing p with
  | case1 => exact absurd h List.not_mem_nil
  | case2 c rest ih =>
    rcases List.mem_cons.1 h with rfl | h
    · exact ⟨[], (next c rest).2, by simp, rfl, next_chars_ne_nil c rest, next_looks c rest⟩
    · obtain ⟨before, after, htext, hplace, hne, hlooks⟩ := ih h
      refine ⟨(next c rest).1.chars ++ before, after, ?_, ?_, hne, hlooks⟩
      · rw [← next_chars_append c rest, htext]
        simp
      · rw [hplace, Place.advance_append]

/-- Every character lies in a piece. -/
theorem exists_mem_locate {p : Place} {pieces : List Piece} {before after : List Char} {c : Char}
    (h : pieces.flatMap chars = before ++ c :: after) :
    ∃ item ∈ locate p pieces, item.1.offset ≤ p.offset + bytes before ∧
      p.offset + bytes before < item.1.offset + bytes item.2.chars ∧ c ∈ item.2.chars := by
  induction pieces generalizing p before with
  | nil => simp at h
  | cons piece pieces ih =>
    -- The character lies behind the first piece, or in it.
    have hbehind : ∀ a, before = piece.chars ++ a → pieces.flatMap chars = a ++ c :: after →
        ∃ item ∈ locate p (piece :: pieces), item.1.offset ≤ p.offset + bytes before ∧
          p.offset + bytes before < item.1.offset + bytes item.2.chars ∧ c ∈ item.2.chars := by
      rintro a rfl ha
      obtain ⟨item, hmem, hitem⟩ := ih (p := p.advance piece.chars) ha
      rw [Place.offset_advance, Nat.add_assoc, ← bytes_append] at hitem
      exact ⟨item, List.mem_cons_of_mem _ hmem, hitem⟩
    rw [List.flatMap_cons, List.append_eq_append_iff] at h
    rcases h with ⟨a, hbefore, ha⟩ | ⟨b, hchars, hb⟩
    · exact hbehind a hbefore ha
    · cases b with
      | nil => exact hbehind [] (by simpa using hchars.symm) hb.symm
      | cons d b =>
        obtain ⟨rfl, -⟩ := List.cons.inj hb
        have hpos := c.utf8Size_pos
        refine ⟨(p, piece), List.mem_cons_self, Nat.le_add_right .., ?_, by simp [hchars]⟩
        change p.offset + bytes before < p.offset + bytes piece.chars
        rw [hchars, bytes_append, bytes_cons]
        omega

end Piece

end ProtoDecl
