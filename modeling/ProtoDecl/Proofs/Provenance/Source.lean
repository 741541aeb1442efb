import ProtoDecl.Listing.Tree
import ProtoDecl.Proofs.Provenance.Parse
import ProtoDecl.Proofs.Spans.Parse
import ProtoDecl.Proofs.WellFormed.Words

/-!
# Spans denote their text

What stands in the source where the span of a node is.

* A number stands there as it is, and a string literal between its quotes and with its escapes,
  whatever else is wrong with the source (`Node.Literal`).
* Where no error was reported, the tokens inside the span of a name make up its text, labels and
  flags are spelled there, a declaration with a body begins with its keyword there and ends with the
  brace that closes its first one, and a statement ends there with its semicolon
  (`Node.Visit.Denotes`).

What a node was read from is known from `owns_fileStatements`.  These tokens are just the ones
inside its span, because tokens stand one after the other (`tokensWithin_eq`).
-/

namespace ProtoDecl

/-! ## Tokens of a source -/

theorem Piece.marked_of_token? {p : Place} {piece : Piece} {after : List Char} {t : Token}
    (hlooks : piece.Looks after) (h : piece.token? p = some t) : t.Marked := by
  intro m hm
  unfold token? at h
  unfold Looks at hlooks
  split at h <;> rename_i hlexeme <;> simp only [hlexeme] at hlooks <;> cases h
  · cases hm
  · cases hm
  · cases hm
  · rcases kindOfWord_cases piece.chars with hk | ⟨k, hk⟩ <;> rw [hk] at hm <;> cases hm
  · cases hm
    rw [String.toList_ofList]
    exact hlooks

theorem marked_of_mem_tokenize {source : String} {t : Token} (h : t ∈ (tokenize source).tokens) :
    t.Marked := by
  rcases token_cases h with ⟨item, hitem, ht⟩ | rfl
  · obtain ⟨_, -, -, hlooks⟩ := stands_of_mem_located hitem
    exact Piece.marked_of_token? hlooks ht
  · exact nofun

/-- The text stands in the source where the span is. -/
def Span.Shows (source : String) (s : Span) (text : List Char) : Prop :=
  ∃ after, Stands source s.start s.stop text after

/-- All tokens but string literals stand in the source as they are. -/
theorem shows_of_mem_tokenize {source : String} {t : Token} (ht : t ∈ (tokenize source).tokens)
    (hk : t.kind ≠ .text) : t.span.Shows source t.value.toList := by
  obtain ⟨text, after, hstands, hspelled⟩ := token_spelled ht
  rw [Token.Spelled, if_neg hk] at hspelled
  rw [hspelled, String.toList_ofList]
  exact ⟨after, hstands⟩

namespace Schema

/-! ## Tokens inside a span -/

/-- The tokens of a source inside a span, without comments and the end of the file. -/
def tokensWithin (source : String) (s : Span) : List Token :=
  (significant (tokenize source).tokens).filter fun t => s.contains t.span

/-- The span begins where the first of the tokens does, and ends where the last does. -/
structure Reaches (w : List Token) (s : Span) : Prop where
  first : w.head?.map (fun t => t.span.start) = some s.start
  last : w.getLast?.map (fun t => t.span.stop) = some s.stop

section
variable {source : String} {lo hi : Nat} {u v w : List Token} {s : Span}

theorem Extent.reaches (h : Extent w s) (hw : Follows lo hi w) : Reaches w s := by
  obtain ⟨first, last, hfirst, hlast, rfl⟩ := h
  have hle := hw.le_last hlast first (List.mem_of_head? hfirst)
  refine ⟨by rw [hfirst]; rfl, ?_⟩
  rw [hlast, Option.map_some, Span.through, Nat.max_eq_left hle]

/-- Of tokens one after the other, a span contains those that it reaches over. -/
theorem Reaches.filter_eq (hs : Reaches w s) (h : Follows lo hi (u ++ w ++ v)) :
    (u ++ w ++ v).filter (fun t => s.contains t.span) = w := by
  obtain ⟨behind, huw, hv⟩ := h.split
  obtain ⟨before, hu, hw⟩ := huw.split
  obtain ⟨first, hfirst, hstart⟩ := Option.map_eq_some_iff.1 hs.first
  obtain ⟨last, hlast, hstop⟩ := Option.map_eq_some_iff.1 hs.last
  have hlo := hw.mem.2 first (List.mem_of_head? hfirst)
  have hhi := hw.mem.2 last (List.mem_of_getLast? hlast)
  have hleft : u.filter (fun t => s.contains t.span) = [] := by
    refine List.filter_eq_nil_iff.2 fun t ht => ?_
    have hmem := hu.mem.2 t ht
    simp only [Span.contains, Bool.and_eq_true, decide_eq_true_eq]
    omega
  have hright : v.filter (fun t => s.contains t.span) = [] := by
    refine List.filter_eq_nil_iff.2 fun t ht => ?_
    have hmem := hv.mem.2 t ht
    simp only [Span.contains, Bool.and_eq_true, decide_eq_true_eq]
    omega
  have hinside : w.filter (fun t => s.contains t.span) = w := by
    refine List.filter_eq_self.2 fun t ht => ?_
    have hstarts := hw.first_le hfirst t ht
    have hstops := hw.le_last hlast t ht
    simp only [Span.contains, Bool.and_eq_true, decide_eq_true_eq]
    omega
  rw [List.filter_append, List.filter_append, hleft, hright, hinside, List.nil_append,
    List.append_nil]

/-- The tokens that a node was read from are the ones inside its span. -/
theorem tokensWithin_eq (hw : w <:+: significant (tokenize source).tokens) (hs : Extent w s) :
    tokensWithin source s = w ∧ Reaches w s := by
  have hordered := Cursor.ordered_ofTokens source
  rw [Cursor.Ordered, Cursor.view_ofTokens] at hordered
  obtain ⟨u, v, huv⟩ := hw
  rw [← huv] at hordered
  obtain ⟨_, huw, -⟩ := hordered.split
  obtain ⟨_, -, hfollows⟩ := huw.split
  have hreaches := hs.reaches hfollows
  refine ⟨?_, hreaches⟩
  rw [tokensWithin, ← huv]
  exact hreaches.filter_eq hordered

end

/-! ## What spans denote -/

/-- The texts that the tokens inside a span have in the source, side by side. -/
def Joins (source : String) (s : Span) (text : List Char) : Prop :=
  ∃ texts, List.Forall₂ (fun t text => t.span.Shows source text) (tokensWithin source s) texts ∧
    text = texts.flatten

/-- The span begins with a keyword and ends with a brace that closes the first one in it. -/
def Encloses (source : String) (k : Keyword) (s : Span) : Prop :=
  Enclosed k (tokensWithin source s) ∧ Reaches (tokensWithin source s) s

/-- The span ends with a semicolon. -/
def Closes (source : String) (s : Span) : Prop :=
  ∃ before last, tokensWithin source s = before ++ [last] ∧ last.kind = .symbol .semicolon ∧
    last.span.stop = s.stop

/-- What a literal says of the text at its span. -/
def Node.Literal (source : String) : Node → Prop
  | .number n => n.span.Shows source n.raw.toList
  | .text n =>
    ∃ body, n.span.Shows source ('"' :: (body ++ ['"'])) ∧ Content body n.value.toList
  | _ => True

/-- What a node says of the text at its span, where no error is reported. -/
def Node.Visit.Denotes (source : String) (v : Node.Visit) : Prop :=
  match v.node with
  | .name n => ∃ text, Joins source n.span text ∧
      n.text.toList = if v.parent.any Node.lowers then text.map Char.toLower else text
  | .fieldLabel l => ∃ text, l.span.Shows source text ∧
      text.map Char.toLower = (Listing.labelWord l.label).toList
  | .flag b => ∃ text, b.span.Shows source text ∧
      text.map Char.toLower = (if b.value then "true" else "false").toList
  | .message m => Encloses source .message m.span
  | .enum e => Encloses source .enum e.span
  | .service s => Encloses source .service s.span
  | .oneof o => Encloses source .oneof o.span
  | .extend e => Encloses source .extend e.span
  | .edition e => Closes source e.span
  | .package p => Closes source p.span
  | .importDecl i => Closes source i.span
  | .field f => Closes source f.span
  | .enumValue v => Closes source v.span
  | .reserved r => Closes source r.span
  | .text _ | .number _ | .option _ | .range _ | .fieldType _ | .extensions _ | .method _
  | .file _ => True

section
variable {source : String} {errors : List SyntaxError} {w : List Token} {s : Span} {t : Token}

theorem mem_tokenize (hw : w <:+: significant (tokenize source).tokens) :
    ∀ t ∈ w, t ∈ (tokenize source).tokens :=
  fun _ ht => mem_of_mem_significant (hw.subset ht)

/-- A keyword may be written in any letter case. -/
theorem keyword_shows (hw : [t] <:+: significant (tokenize source).tokens) (hs : Extent [t] s)
    {k : Keyword} (hk : t.kind = .keyword k) :
    ∃ text, s.Shows source text ∧ text.map Char.toLower = k.spelling.toList := by
  have ht := mem_tokenize hw t List.mem_cons_self
  rw [extent_singleton_iff.1 hs]
  exact ⟨_, shows_of_mem_tokenize ht (by simp [hk]), (worded_of_mem_tokenize ht).spelling k hk⟩

theorem Parser.labelOf?_spelling {k : Kind} {label : Label} (h : labelOf? k = some label) :
    ∃ word, k = .keyword word ∧ word.spelling = Listing.labelWord label := by
  unfold labelOf? at h
  split at h <;> cases h
  · exact ⟨.optional, rfl, rfl⟩
  · exact ⟨.required, rfl, rfl⟩
  · exact ⟨.repeated, rfl, rfl⟩

theorem joins_spelling (hw : w <:+: significant (tokenize source).tokens) (hs : Extent w s)
    (hparts : ∀ t ∈ w, t.kind.isNamePart = true) : Joins source s (spelling w) := by
  refine ⟨w.map fun t => t.value.toList, ?_, rfl⟩
  rw [(tokensWithin_eq hw hs).1, List.forall₂_map_right_iff, List.forall₂_same]
  intro t ht
  refine shows_of_mem_tokenize (mem_tokenize hw t ht) fun htext => ?_
  have hpart := hparts t ht
  rw [htext] at hpart
  cases hpart

theorem encloses_of_extent (hw : w <:+: significant (tokenize source).tokens) (hs : Extent w s)
    {k : Keyword} (h : Enclosed k w) : Encloses source k s := by
  obtain ⟨heq, hreaches⟩ := tokensWithin_eq hw hs
  rw [Encloses, heq]
  exact ⟨h, hreaches⟩

theorem closes_of_extent (hw : w <:+: significant (tokenize source).tokens) (hs : Extent w s)
    (h : ∃ u t, w = u ++ [t] ∧ t.kind = .symbol .semicolon) : Closes source s := by
  obtain ⟨heq, hreaches⟩ := tokensWithin_eq hw hs
  obtain ⟨u, t, rfl, hk⟩ := h
  have hlast := hreaches.last
  rw [List.getLast?_append, List.getLast?_singleton] at hlast
  exact ⟨u, t, heq, hk, Option.some.inj hlast⟩

/-- A literal is a token of its own. -/
theorem Node.Covered.literal {small : Bool} {n : Node}
    (h : n.Covered (significant (tokenize source).tokens) errors small) : n.Literal source := by
  cases n with
  | number n =>
    obtain ⟨_, hw, hs, t, rfl, hk, hvalue⟩ := h trivial
    have hshows := shows_of_mem_tokenize (mem_tokenize hw t List.mem_cons_self) (by simp [hk])
    rw [hvalue, ← extent_singleton_iff.1 hs] at hshows
    exact hshows
  | text n =>
    obtain ⟨_, hw, hs, t, rfl, hk, hvalue⟩ := h trivial
    obtain ⟨text, after, hstands, hspelled⟩ := token_spelled (mem_tokenize hw t List.mem_cons_self)
    rw [Token.Spelled, if_pos hk, hvalue] at hspelled
    obtain ⟨body, rfl, hcontent⟩ := hspelled
    rw [← extent_singleton_iff.1 hs] at hstands
    exact ⟨body, ⟨after, hstands⟩, hcontent⟩
  | _ => trivial

/-- Where no error was reported, every node stands in the source as it was read. -/
theorem Node.Covered.denotes {v : Node.Visit}
    (h : v.node.Covered (significant (tokenize source).tokens) [] (v.parent.any Node.lowers)) :
    v.Denotes source := by
  obtain ⟨n, parent⟩ := v
  cases n with
  | name n =>
    obtain ⟨w, hw, hs, -, hparts, htext⟩ := h rfl
    exact ⟨spelling w, joins_spelling hw hs hparts, htext⟩
  | fieldLabel l =>
    obtain ⟨_, hw, hs, t, rfl, hlabel⟩ := h trivial
    obtain ⟨k, hk, hspelling⟩ := Parser.labelOf?_spelling hlabel
    obtain ⟨text, hshows, hword⟩ := keyword_shows hw hs hk
    exact ⟨text, hshows, hspelling ▸ hword⟩
  | flag b =>
    obtain ⟨_, hw, hs, t, rfl, hk⟩ := h trivial
    obtain ⟨text, hshows, hword⟩ := keyword_shows hw hs hk
    refine ⟨text, hshows, hword.trans ?_⟩
    cases b.value <;> rfl
  | message | enum | service | oneof | extend =>
    obtain ⟨w, hw, hs, henclosed⟩ := h rfl
    exact encloses_of_extent hw hs henclosed
  | edition | package | importDecl | field | enumValue | reserved =>
    obtain ⟨w, hw, hs, hends⟩ := h rfl
    exact closes_of_extent hw hs hends
  | text | number | option | range | fieldType | extensions | method | file => trivial

end

/-- The file of a source is told, where the errors in it are all that is reported. -/
theorem told_parse (source : String) :
    Told (significant (tokenize source).tokens) (parse (tokenize source).tokens).errors false
      (.file (parse (tokenize source).tokens).file) := by
  obtain ⟨s, d, hrun, hparsed⟩ := parse_yields (tokenize source).tokens
  have hwithin : (within (significant (tokenize source).tokens)).holds
      (Cursor.ofTokens (tokenize source).tokens) := by
    refine ⟨⟨[], by rw [List.nil_append, Cursor.view_ofTokens]⟩, fun t ht => ?_⟩
    exact marked_of_mem_tokenize (mem_of_mem_significant ht)
  have hempty : (Node.file {}).Owns
      (Told (significant (tokenize source).tokens) d.errors false) := by
    simp [Node.Owns, Node.parts]
  have howns := Parser.owns_fileStatements hempty hwithin s d hrun (List.Subset.refl _)
  rw [hparsed]
  exact ⟨False.elim, howns⟩

/-- Whatever the source, every literal stands in it where its span is; and where no error is
reported, so does every name, label and flag, every declaration with a body reaches from its keyword
to its own brace, and every statement ends with its semicolon. -/
theorem walk_parse_denotes (source : String) :
    ∀ v ∈ (Node.file (parse (tokenize source).tokens).file).walk,
      v.node.Literal source ∧
        ((parse (tokenize source).tokens).errors = [] → v.Denotes source) := by
  intro v hv
  have htold := told_parse source
  have hcovered := htold.mem_walkFrom none v hv
  exact ⟨hcovered.literal, fun hnil => (hnil ▸ hcovered).denotes⟩

/-- The type of the field is written in capitals, and a comment stands in the name of its values. -/
theorem walk_parse_denotes_map :
    let source := "message M \x7b MAP<a, b /* in */ . c> f = 1; \x7d"
    let parsed := parse (tokenize source).tokens
    parsed.errors = [] ∧ ∃ v ∈ (Node.file parsed.file).walk,
      v.node.kind = .name ∧ v.parent.any Node.lowers = true ∧ v.node.Literal source ∧
        v.Denotes source := by
  intro source parsed
  have hnil : parsed.errors = [] := List.isEmpty_iff.1 (by decide +kernel)
  have hname : (Node.file parsed.file).walk.any (fun v =>
      v.node.kind = .name ∧ v.parent.any Node.lowers = true) = true := by decide +kernel
  obtain ⟨v, hv, hnode⟩ := List.any_eq_true.1 hname
  obtain ⟨hkind, hlowers⟩ := of_decide_eq_true hnode
  obtain ⟨hliteral, hdenotes⟩ := walk_parse_denotes source v hv
  exact ⟨hnil, v, hv, hkind, hlowers, hliteral, hdenotes hnil⟩

end Schema

end ProtoDecl
