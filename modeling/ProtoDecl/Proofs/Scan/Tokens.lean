import ProtoDecl.Proofs.Scan.Pieces
import Mathlib.Data.List.Forall2
import Mathlib.Data.List.Pairwise

/-!
# Tokens and faults of a text

Nothing of a text is lost when it is cut into tokens: what is not a token is a fault, or blank.

* `Stands` says that some text stands in a source at given bytes;
* `FaultRegion` says where an error is, and that what stands there is such a fault;
* `Lossless` puts together what is expected of the tokens and the errors of a source;
* `tokenize_lossless` says that every source is scanned in this way.
-/

namespace ProtoDecl

/-- `text` stands in the source at the bytes from `start` up to `stop`, and `after` behind it. -/
def Stands (source : String) (start stop : Nat) (text after : List Char) : Prop :=
  ∃ before, source.toList = before ++ text ++ after ∧ start = bytes before ∧
    stop = bytes (before ++ text)

/-- The text of a token: a literal with its value decoded, or the value itself. -/
def Token.Spelled (t : Token) (text : List Char) : Prop :=
  if t.kind = .text then ∃ body, text = '"' :: (body ++ ['"']) ∧ Content body t.value.toList
  else t.value = String.ofList text

/-- The region of an error begins at its place, and holds such a fault. -/
def FaultRegion (source : String) (e : LexicalError) (region : Span) : Prop :=
  region.start = e.place.offset ∧
    ∃ text after, Stands source region.start region.stop text after ∧ Faulty e.fault text after

/-- What is expected of a scan, with the regions of its errors. -/
structure Lossless (source : String) (scan : Scan) (regions : List Span) : Prop where
  /-- The last token, and no other, is the end of the file; the others are not empty. -/
  closed : ∃ tokens e, scan.tokens = tokens ++ [e] ∧ e.kind = .endOfFile ∧ e.value = "" ∧
    e.span.start = source.utf8ByteSize ∧ e.span.stop = source.utf8ByteSize ∧
    ∀ t ∈ tokens, t.kind ≠ .endOfFile ∧ t.span.start < t.span.stop
  /-- Tokens are in order. -/
  ordered : scan.tokens.Pairwise fun t u => t.span.start < u.span.start ∧
    t.span.stop ≤ u.span.start
  /-- Every token stands in the source where its span says. -/
  spelled : ∀ t ∈ scan.tokens, ∃ text after,
    Stands source t.span.start t.span.stop text after ∧ t.Spelled text
  /-- The errors have one region each. -/
  faults : List.Forall₂ (FaultRegion source) scan.errors regions
  /-- The regions are in order. -/
  regionsOrdered : regions.Pairwise fun a b => a.stop ≤ b.start
  /-- No token overlaps a region. -/
  apart : ∀ t ∈ scan.tokens, ∀ r ∈ regions, t.span.stop ≤ r.start ∨ r.stop ≤ t.span.start
  /-- A character outside of all tokens and regions is blank. -/
  covered : ∀ before c after, source.toList = before ++ c :: after →
    (∃ s ∈ scan.tokens.map Token.span ++ regions, s.start ≤ bytes before ∧ bytes before < s.stop) ∨
      Text.isBlank c = true

/-! ## Tokens and faults of one piece -/

namespace Piece

/-- The region of a piece that is a fault. -/
def region? (p : Place) (piece : Piece) : Option Span :=
  (piece.error? p).map fun _ => p.spanOf piece.chars

variable {p : Place} {piece : Piece} {after : List Char}

theorem kindOfWord_cases (word : List Char) :
    kindOfWord word = .identifier ∨ ∃ k, kindOfWord word = .keyword k := by
  unfold kindOfWord
  split
  · exact .inr ⟨_, rfl⟩
  · exact .inl rfl

theorem span_of_token? {t : Token} (h : piece.token? p = some t) :
    t.span = p.spanOf piece.chars := by
  unfold token? at h
  split at h <;> cases h <;> rfl

theorem kind_ne_of_token? {t : Token} (h : piece.token? p = some t) : t.kind ≠ .endOfFile := by
  unfold token? at h
  split at h <;> cases h <;> simp
  rcases kindOfWord_cases piece.chars with hk | ⟨k, hk⟩ <;> simp [hk]

theorem spelled_of_token? {t : Token} (hlooks : piece.Looks after)
    (h : piece.token? p = some t) : t.Spelled piece.chars := by
  unfold token? at h
  unfold Looks at hlooks
  split at h <;> rename_i hlexeme <;> simp only [hlexeme] at hlooks <;> cases h
  · simp [Token.Spelled]
  · simpa [Token.Spelled] using hlooks
  · simp [Token.Spelled]
  · rcases kindOfWord_cases piece.chars with hk | ⟨k, hk⟩ <;> simp [Token.Spelled, hk]
  · simp [Token.Spelled]

theorem place_of_error? {e : LexicalError} (h : piece.error? p = some e) : e.place = p := by
  cases hlexeme : piece.lexeme <;> simp only [error?, hlexeme, reduceCtorEq] at h
  all_goals
    cases h
    rfl

theorem faulty_of_error? {e : LexicalError} (hlooks : piece.Looks after)
    (h : piece.error? p = some e) : Faulty e.fault piece.chars after := by
  cases hlexeme : piece.lexeme <;> simp only [error?, hlexeme, reduceCtorEq] at h
  all_goals
    simp only [Looks, hlexeme] at hlooks
    cases h
    exact hlooks

theorem error?_of_token? {t : Token} (h : piece.token? p = some t) : piece.error? p = none := by
  unfold token? at h
  unfold error?
  split at h <;> rename_i hlexeme <;> simp_all

/-- A piece is a token, a fault or blank. -/
theorem token?_or_error? (hlooks : piece.Looks after) :
    (∃ t, piece.token? p = some t) ∨ (∃ e, piece.error? p = some e) ∨
      ∃ c, piece.chars = [c] ∧ Text.isBlank c = true := by
  unfold token? error?
  unfold Looks at hlooks
  split at hlooks <;> rename_i hlexeme <;> simp [hlexeme]
  exact hlooks

end Piece

/-! ## All pieces -/

theorem forall₂_filterMap {α β γ : Type} {R : β → γ → Prop} {f : α → Option β} {g : α → Option γ}
    {l : List α}
    (h : ∀ a ∈ l, (f a = none ∧ g a = none) ∨ ∃ b c, f a = some b ∧ g a = some c ∧ R b c) :
    List.Forall₂ R (l.filterMap f) (l.filterMap g) := by
  induction l with
  | nil => exact .nil
  | cons a l ih =>
    have hrest := ih fun x hx => h x (List.mem_cons_of_mem _ hx)
    rcases h a List.mem_cons_self with ⟨hf, hg⟩ | ⟨b, c, hf, hg, hR⟩
    · rwa [List.filterMap_cons_none hf, List.filterMap_cons_none hg]
    · rw [List.filterMap_cons_some hf, List.filterMap_cons_some hg]
      exact .cons hR hrest

/-- The places and pieces of a source. -/
def located (source : String) : List (Place × Piece) :=
  Piece.locate .origin (Piece.split source.toList)

variable {source : String} {item : Place × Piece}

/-- A piece of a source stands where its place says, and looks as it should. -/
theorem stands_of_mem_located (h : item ∈ located source) :
    ∃ after, Stands source item.1.offset (item.1.offset + bytes item.2.chars) item.2.chars after ∧
      item.2.chars ≠ [] ∧ item.2.Looks after := by
  obtain ⟨before, after, htext, hplace, hne, hlooks⟩ := Piece.mem_locate_split h
  have hstart : item.1.offset = bytes before := by
    rw [hplace, Place.offset_advance]
    exact Nat.zero_add _
  exact ⟨after, ⟨before, htext, hstart, by rw [hstart, bytes_append]⟩, hne, hlooks⟩

@[simp] theorem Place.spanOf_start (p : Place) (text : List Char) :
    (p.spanOf text).start = p.offset :=
  rfl

@[simp] theorem Place.spanOf_stop (p : Place) (text : List Char) :
    (p.spanOf text).stop = p.offset + bytes text :=
  p.offset_advance text

theorem tokenize_tokens (source : String) :
    (tokenize source).tokens = (located source).filterMap (fun item => item.2.token? item.1) ++
      [Token.endOfFile (Place.origin.advance source.toList)] :=
  rfl

theorem tokenize_errors (source : String) :
    (tokenize source).errors = (located source).filterMap fun item => item.2.error? item.1 :=
  rfl

theorem bytes_toList (source : String) : bytes source.toList = source.utf8ByteSize := by
  rw [bytes, String.ofList_toList]

/-- The end of the file is at the end of the source. -/
theorem endOfFile_span (source : String) :
    (Token.endOfFile (Place.origin.advance source.toList)).span.start = source.utf8ByteSize ∧
      (Token.endOfFile (Place.origin.advance source.toList)).span.stop = source.utf8ByteSize := by
  have hoffset : (Place.origin.advance source.toList).offset = source.utf8ByteSize := by
    rw [Place.offset_advance, bytes_toList]
    exact Nat.zero_add _
  exact ⟨hoffset, by rw [Token.endOfFile, Place.spanOf_stop, hoffset, bytes_nil, Nat.add_zero]⟩

theorem stop_le_of_mem_located (h : item ∈ located source) :
    item.1.offset + bytes item.2.chars ≤ source.utf8ByteSize := by
  obtain ⟨after, ⟨before, htext, hstart, hstop⟩, -, -⟩ := stands_of_mem_located h
  rw [hstop, ← bytes_toList, htext, bytes_append _ after]
  exact Nat.le_add_right _ _

/-- Pieces that are not the same do not overlap. -/
theorem apart_of_mem_located {a b : Place × Piece} (ha : a ∈ located source)
    (hb : b ∈ located source) (hne : a ≠ b) :
    a.1.offset + bytes a.2.chars ≤ b.1.offset ∨ b.1.offset + bytes b.2.chars ≤ a.1.offset := by
  have hpairwise : (located source).Pairwise fun a b =>
      a.1.offset + bytes a.2.chars ≤ b.1.offset ∨ b.1.offset + bytes b.2.chars ≤ a.1.offset :=
    (Piece.pairwise_locate _ _).imp .inl
  have : Std.Symm fun a b : Place × Piece =>
      a.1.offset + bytes a.2.chars ≤ b.1.offset ∨ b.1.offset + bytes b.2.chars ≤ a.1.offset :=
    ⟨fun _ _ => Or.symm⟩
  exact hpairwise.forall ha hb hne

/-- A token other than the end of the file is one of the pieces. -/
theorem token_cases {t : Token} (h : t ∈ (tokenize source).tokens) :
    (∃ item ∈ located source, item.2.token? item.1 = some t) ∨
      t = Token.endOfFile (Place.origin.advance source.toList) := by
  rw [tokenize_tokens, List.mem_append, List.mem_filterMap, List.mem_singleton] at h
  exact h

theorem tokenize_ordered (source : String) :
    (tokenize source).tokens.Pairwise fun t u => t.span.start < u.span.start ∧
      t.span.stop ≤ u.span.start := by
  have hpos : ∀ item ∈ located source, 0 < bytes item.2.chars := by
    intro item h
    obtain ⟨_, -, hne, -⟩ := stands_of_mem_located h
    exact bytes_pos hne
  rw [tokenize_tokens, List.pairwise_append]
  refine ⟨List.pairwise_filterMap.2 ?_, List.pairwise_singleton _ _, ?_⟩
  · refine (Piece.pairwise_locate _ _).imp_of_mem fun {a b} ha _ hab t ht u hu => ?_
    have hlt := hpos a ha
    rw [Piece.span_of_token? ht, Piece.span_of_token? hu]
    simp only [Place.spanOf_start, Place.spanOf_stop]
    omega
  · intro t ht e he
    obtain ⟨a, ha, ht⟩ := List.mem_filterMap.1 ht
    rw [List.mem_singleton.1 he, (endOfFile_span source).1, Piece.span_of_token? ht]
    have hlt := hpos a ha
    have hle := stop_le_of_mem_located ha
    simp only [Place.spanOf_start, Place.spanOf_stop]
    omega

/-- The regions of the errors of a source. -/
def regionsOf (source : String) : List Span :=
  (located source).filterMap fun item => item.2.region? item.1

theorem mem_regionsOf {r : Span} (h : r ∈ regionsOf source) :
    ∃ item ∈ located source, ∃ e, item.2.error? item.1 = some e ∧
      r = item.1.spanOf item.2.chars := by
  obtain ⟨item, hitem, hr⟩ := List.mem_filterMap.1 h
  obtain ⟨e, he, rfl⟩ := Option.map_eq_some_iff.1 hr
  exact ⟨item, hitem, e, he, rfl⟩

theorem faultRegion_regionsOf (source : String) :
    List.Forall₂ (FaultRegion source) (tokenize source).errors (regionsOf source) := by
  refine forall₂_filterMap fun item hitem => ?_
  cases he : item.2.error? item.1 with
  | none => exact .inl ⟨rfl, by simp [Piece.region?, he]⟩
  | some e =>
    obtain ⟨after, hstands, -, hlooks⟩ := stands_of_mem_located hitem
    refine .inr ⟨e, item.1.spanOf item.2.chars, rfl, by simp [Piece.region?, he], ?_⟩
    refine ⟨by rw [Piece.place_of_error? he]; rfl, item.2.chars, after, ?_, ?_⟩
    · simpa using hstands
    · exact Piece.faulty_of_error? hlooks he

theorem regionsOf_ordered (source : String) :
    (regionsOf source).Pairwise fun a b => a.stop ≤ b.start := by
  refine List.pairwise_filterMap.2 ((Piece.pairwise_locate _ _).imp fun hab r hr s hs => ?_)
  obtain ⟨_, -, rfl⟩ := Option.map_eq_some_iff.1 hr
  obtain ⟨_, -, rfl⟩ := Option.map_eq_some_iff.1 hs
  simpa using hab

theorem token_apart_region {t : Token} (ht : t ∈ (tokenize source).tokens) {r : Span}
    (hr : r ∈ regionsOf source) : t.span.stop ≤ r.start ∨ r.stop ≤ t.span.start := by
  obtain ⟨b, hb, e, he, rfl⟩ := mem_regionsOf hr
  rcases token_cases ht with ⟨a, ha, hta⟩ | rfl
  · have hne : a ≠ b := by
      rintro rfl
      rw [Piece.error?_of_token? hta] at he
      cases he
    rw [Piece.span_of_token? hta]
    simpa using apart_of_mem_located ha hb hne
  · right
    rw [(endOfFile_span source).1, Place.spanOf_stop]
    exact stop_le_of_mem_located hb

theorem token_spelled {t : Token} (ht : t ∈ (tokenize source).tokens) :
    ∃ text after, Stands source t.span.start t.span.stop text after ∧ t.Spelled text := by
  rcases token_cases ht with ⟨item, hitem, ht⟩ | rfl
  · obtain ⟨after, hstands, -, hlooks⟩ := stands_of_mem_located hitem
    refine ⟨item.2.chars, after, ?_, Piece.spelled_of_token? hlooks ht⟩
    rw [Piece.span_of_token? ht]
    simpa using hstands
  · obtain ⟨hstart, hstop⟩ := endOfFile_span source
    refine ⟨[], [], ⟨source.toList, by simp, ?_, ?_⟩, by simp [Token.Spelled, Token.endOfFile]⟩
    · rw [hstart, bytes_toList]
    · rw [hstop, List.append_nil, bytes_toList]

theorem tokenize_covered (source : String) {before after : List Char} {c : Char}
    (h : source.toList = before ++ c :: after) :
    (∃ s ∈ (tokenize source).tokens.map Token.span ++ regionsOf source,
      s.start ≤ bytes before ∧ bytes before < s.stop) ∨ Text.isBlank c = true := by
  obtain ⟨item, hitem, hstart, hstop, hc⟩ := Piece.exists_mem_locate (p := Place.origin)
    ((Piece.flatMap_chars_split source.toList).trans h)
  rw [show Place.origin.offset = 0 from rfl, Nat.zero_add] at hstart hstop
  have hspan : (item.1.spanOf item.2.chars).start ≤ bytes before ∧
      bytes before < (item.1.spanOf item.2.chars).stop := by
    simpa using ⟨hstart, hstop⟩
  obtain ⟨after, -, -, hlooks⟩ := stands_of_mem_located hitem
  rcases Piece.token?_or_error? (p := item.1) hlooks with ⟨t, ht⟩ | ⟨e, he⟩ | ⟨d, hchars, hd⟩
  · refine .inl ⟨t.span, List.mem_append_left _ (List.mem_map_of_mem ?_), ?_⟩
    · exact List.mem_append_left _ (List.mem_filterMap.2 ⟨item, hitem, ht⟩)
    · rwa [Piece.span_of_token? ht]
  · refine .inl ⟨_, List.mem_append_right _ (List.mem_filterMap.2 ⟨item, hitem, ?_⟩), hspan⟩
    rw [Piece.region?, he]
    rfl
  · rw [hchars, List.mem_singleton] at hc
    exact .inr (hc ▸ hd)

/-- The end of the file comes last, and no other token is empty. -/
theorem tokenize_closed (source : String) :
    ∃ tokens e, (tokenize source).tokens = tokens ++ [e] ∧ e.kind = .endOfFile ∧ e.value = "" ∧
      e.span.start = source.utf8ByteSize ∧ e.span.stop = source.utf8ByteSize ∧
      ∀ t ∈ tokens, t.kind ≠ .endOfFile ∧ t.span.start < t.span.stop := by
  refine ⟨_, _, tokenize_tokens source, rfl, rfl, (endOfFile_span source).1,
    (endOfFile_span source).2, fun t ht => ?_⟩
  obtain ⟨item, hitem, ht⟩ := List.mem_filterMap.1 ht
  obtain ⟨_, -, hne, -⟩ := stands_of_mem_located hitem
  have hpos := bytes_pos hne
  rw [Piece.span_of_token? ht, Place.spanOf_start, Place.spanOf_stop]
  exact ⟨Piece.kind_ne_of_token? ht, by omega⟩

/-- Nothing of a source is lost: it is tokens, faults and blanks. -/
theorem tokenize_lossless (source : String) :
    ∃ regions, Lossless source (tokenize source) regions := by
  refine ⟨regionsOf source, ?_⟩
  exact {
    closed := tokenize_closed source
    ordered := tokenize_ordered source
    spelled := fun _ => token_spelled
    faults := faultRegion_regionsOf source
    regionsOrdered := regionsOf_ordered source
    apart := fun _ ht _ => token_apart_region ht
    covered := fun _ _ _ => tokenize_covered source }

end ProtoDecl
