import ProtoDecl.Proofs.Grammar.Files
import ProtoDecl.Proofs.Scan.Render
import ProtoDecl.Proofs.WellFormed.Words

/-!
# Keywords as ordinary names

Keywords are recognised in any letter case, so a type or an enum value that begins with a capital
may be a keyword too.  A statement then is still what it looks like, with four exceptions: `option`
begins an option, and `optional`, `required` and `repeated` are labels (`parse_ordinary_name`).

The source of such a statement is scanned piece by piece: `Scans` gives the kinds and values of the
tokens of a text, and has one lemma for each piece at the front of a text.  The grammar then derives
the tree from these tokens, whatever keyword the word is.
-/

namespace ProtoDecl

open Text Piece

/-! ## Scanning a text piece by piece -/

/-- Whether a text has no faults, and tokens of the given kinds and values, wherever it begins. -/
def Scans (text : List Char) (ts : List (Kind × String)) : Prop :=
  ∀ p, ((locate p (split text)).filterMap fun item => item.2.token? item.1).map
      (fun t => (t.kind, t.value)) = ts ∧
    ((locate p (split text)).filterMap fun item => item.2.error? item.1) = []

section
variable {rest : List Char} {ts : List (Kind × String)}

theorem stops_cons {p : Char → Bool} {c : Char} (h : p c = false) : Stops p (c :: rest) := by
  intro d hd
  cases hd
  exact h

theorem scans_nil : Scans [] [] := by
  intro p
  simp [split, locate]

/-- A piece that is a token. -/
theorem Scans.token {c : Char} {cs : List Char} {piece : Piece} {k : Kind} {value : String}
    (h : Scans rest ts) (hnext : next c cs = (piece, rest))
    (htoken : ∀ p, piece.token? p = some ⟨k, value, p.spanOf piece.chars⟩) :
    Scans (c :: cs) ((k, value) :: ts) := by
  intro p
  obtain ⟨htokens, herrors⟩ := h (p.advance piece.chars)
  rw [split_of_next hnext]
  refine ⟨?_, ?_⟩
  · simp only [locate, List.filterMap_cons, htoken, List.map_cons, htokens]
  · simp only [locate, List.filterMap_cons, error?_of_token? (htoken p), herrors]

theorem Scans.blank {c : Char} (h : Scans rest ts) (hc : isBlank c = true) :
    Scans (c :: rest) ts := by
  intro p
  have hnext : next c rest = (⟨.blank, [c]⟩, rest) := by simp [next, hc]
  rw [split_of_next hnext]
  exact h (p.advance [c])

theorem Scans.word {word : List Char} (h : Scans rest ts) (hword : isWord word = true)
    (hstops : Stops isWordPart rest) :
    Scans (word ++ rest) ((kindOfWord word, String.ofList word) :: ts) := by
  cases word with
  | nil => cases hword
  | cons c cs =>
    obtain ⟨hc, hcs⟩ := Bool.and_eq_true_iff.1 hword
    exact h.token (next_word hc (List.all_eq_true.1 hcs) hstops) fun _ => rfl

theorem Scans.symbol (mark : Symbol) (h : Scans rest ts) (hstops : Stops Char.isDigit rest) :
    Scans (mark.char :: rest) ((.symbol mark, String.ofList [mark.char]) :: ts) :=
  h.token (next_symbol mark hstops) fun _ => rfl

/-- A digit that neither a digit nor a point follows. -/
theorem Scans.digit {d : Char} (h : Scans rest ts) (hd : d.isDigit = true)
    (hstops : Stops (fun c => c.isDigit || c == '.') rest) :
    Scans (d :: rest) ((.number, String.ofList [d]) :: ts) := by
  have hdigit : Stops Char.isDigit rest := fun c hc => (Bool.or_eq_false_iff.1 (hstops c hc)).1
  have hpoint : Stops (· == '.') rest := fun c hc => (Bool.or_eq_false_iff.1 (hstops c hc)).2
  have hscan : scanNumber rest = ([], rest) := by
    have hnone : ∀ c ∈ ([] : List Char), c.isDigit = true := List.forall_mem_nil _
    have htake := takeWhile_append_stops hnone hdigit
    have hdrop := dropWhile_append_stops hnone hdigit
    rw [List.nil_append] at htake hdrop
    rw [scanNumber, htake, hdrop, scanFraction_none hpoint]
    rfl
  have hnext : next d rest = (⟨.number, [d]⟩, rest) := by
    rw [next_number (by simp [startsNumber, hd]), hscan]
  exact h.token hnext fun _ => rfl

end

theorem isName_kindOfWord (word : List Char) : (kindOfWord word).isName = true := by
  rcases kindOfWord_cases word with h | ⟨k, h⟩ <;> rw [h] <;> rfl

theorem kindOfWord_plain (word : List Char) :
    kindOfWord word ≠ .comment ∧ kindOfWord word ≠ .endOfFile := by
  rcases kindOfWord_cases word with h | ⟨k, h⟩ <;> simp [h]

/-- A word is a keyword only if it spells it. -/
theorem toLower_of_kindOfWord {word : List Char} {k : Keyword} (h : kindOfWord word = .keyword k) :
    word.map Char.toLower = k.spelling.toList := by
  unfold kindOfWord at h
  split at h
  · cases h
    exact Keyword.toLower_of_ofWord? ‹_›
  · cases h

/-! ## Deriving a tree from kinds and values -/

namespace Schema

/-- Whether a rule derives a tree from all tokens of the given kinds and values. -/
def Derives {α : Type} (r : Rule α) (ts : List (Kind × String)) (a : α) : Prop :=
  ∀ us : List Token, us.map (fun t => (t.kind, t.value)) = ts → r us a

namespace Derives

variable {α β : Type} {r s : Rule α} {ts ts' : List (Kind × String)} {a : α}

theorem pure (a : α) : Derives (Pure.pure a) [] a := by
  intro us hus
  exact ⟨List.map_eq_nil_iff.1 hus, rfl⟩

theorem bind {f : α → Rule β} {b : β} (h : Derives r ts a) (hf : Derives (f a) ts' b) :
    Derives (r >>= f) (ts ++ ts') b := by
  intro us hus
  obtain ⟨u, v, rfl, hu, hv⟩ := List.map_eq_append_iff.1 hus
  exact ⟨u, v, a, rfl, h u hu, hf v hv⟩

theorem map (f : α → β) (h : Derives r ts a) : Derives (f <$> r) ts (f a) :=
  fun us hus => ⟨a, h us hus, rfl⟩

theorem bind_pure (f : α → β) (h : Derives r ts a) :
    Derives (r >>= fun a => Pure.pure (f a)) ts (f a) := by
  rw [Rule.bind_pure]
  exact h.map f

theorem left (h : Derives r ts a) : Derives (r <|> s) ts a :=
  fun us hus => .inl (h us hus)

theorem right (h : Derives s ts a) : Derives (r <|> s) ts a :=
  fun us hus => .inr (h us hus)

theorem terminal {P : Kind → Prop} {k : Kind} (value : String) (hk : P k) :
    Derives (.terminal P) [(k, value)] ⟨k, value, nowhere⟩ := by
  intro us hus
  obtain ⟨t, rfl, ht⟩ := List.map_eq_singleton_iff.1 hus
  obtain ⟨rfl, rfl⟩ := Prod.mk.inj ht
  exact ⟨t, rfl, hk, rfl⟩

/-- A token of a given kind, and what comes behind it. -/
theorem token {k : Kind} {value : String} {f : Token → Rule β} {b : β}
    (hf : Derives (f ⟨k, value, nowhere⟩) ts b) :
    Derives (.token k >>= f) ((k, value) :: ts) b :=
  bind (terminal (P := (· = k)) value rfl) hf

theorem notAt {P : Kind → Prop} {k : Kind} {value : String} (h : Derives r ((k, value) :: ts) a)
    (hk : ¬P k) : Derives (r.notAt P) ((k, value) :: ts) a := by
  intro us hus
  refine ⟨h us hus, fun t ht => ?_⟩
  obtain ⟨u, us', rfl, hu, -⟩ := List.map_eq_cons_iff.1 hus
  cases ht
  rwa [(Prod.mk.inj hu).1]

theorem satisfying {P : α → Prop} (h : Derives r ts a) (ha : P a) : Derives (r.satisfying P) ts a :=
  fun us hus => ⟨h us hus, ha⟩

theorem many_nil : Derives r.many [] [] := by
  intro us hus
  rw [List.map_eq_nil_iff.1 hus]
  exact .nil

theorem many_one (h : Derives r ts a) : Derives r.many ts [a] :=
  fun us hus => Rule.many_one (h us hus)

/-- One step of a rule that refers to itself. -/
theorem nested {step : Rule α → Rule α} (h : Derives (step .nothing) ts a) :
    Derives (.nested step) ts a :=
  fun us hus => ⟨1, h us hus⟩

end Derives

namespace Grammar

variable {k : Kind} {value : String} {ts : List (Kind × String)}

theorem derives_name (hk : k.isName = true) : Derives name [(k, value)] ⟨value, nowhere⟩ :=
  .bind (.terminal value hk) (.pure _)

theorem derives_fieldType (hk : k.isName = true) :
    Derives fieldType [(k, value)] ⟨⟨value, nowhere⟩, [], nowhere⟩ := by
  have hsegments : Derives (segments value) [] value := by
    have h := Derives.many_nil (r := segment)
    exact h.map fun rest => ".".intercalate (value :: rest.map Name.text)
  have hname : Derives dottedName [(k, value)] ⟨value, nowhere⟩ :=
    .bind (derives_name hk) (.bind hsegments (.pure _))
  exact .nested (.right (.map _ (.left hname)))

/-- The number that is written as one digit. -/
theorem derives_integer (h : (NumberLit.mk value nowhere).integer?.isSome = true) :
    Derives integer [(.number, value)] ⟨value, nowhere⟩ := by
  have htoken : Derives (.token .number) [(.number, value)] ⟨.number, value, nowhere⟩ :=
    .terminal value rfl
  have hnumber : Derives number [(.number, value)] ⟨value, nowhere⟩ :=
    .map (fun t : Token => NumberLit.mk t.value nowhere) htoken
  exact hnumber.satisfying h

theorem derives_options : Derives options [] [] :=
  .right (.pure [])

/-- A field without options, from its type on. -/
theorem derives_labelledField {k' : Kind} (label : Option FieldLabel) (type name number : String)
    (hk : k.isName = true) (hk' : k'.isName = true)
    (hnumber : (NumberLit.mk number nowhere).integer?.isSome = true) :
    Derives (labelledField label)
      [(k, type), (k', name), (.symbol .equals, "="), (.number, number),
        (.symbol .semicolon, ";")]
      ⟨label, ⟨⟨type, nowhere⟩, [], nowhere⟩, ⟨name, nowhere⟩, ⟨number, nowhere⟩, [], nowhere⟩ :=
  .bind (derives_fieldType hk) <| .bind (derives_name hk') <| .token <|
    .bind (derives_integer hnumber) <| .bind derives_options <| .token (.pure _)

/-- A field without a label and without options. -/
theorem derives_memberField {k' : Kind} (type name number : String)
    (hk : k.isName = true) (hlabel : (Parser.labelOf? k).isSome = false)
    (hoption : k ≠ .keyword .option) (hk' : k'.isName = true)
    (hnumber : (NumberLit.mk number nowhere).integer?.isSome = true) :
    Derives memberField
      [(k, type), (k', name), (.symbol .equals, "="), (.number, number),
        (.symbol .semicolon, ";")]
      ⟨none, ⟨⟨type, nowhere⟩, [], nowhere⟩, ⟨name, nowhere⟩, ⟨number, nowhere⟩, [], nowhere⟩ := by
  have hfield := derives_labelledField none type name number hk hk' hnumber
  exact .notAt (.right (hfield.notAt (by simp [hlabel]))) hoption

/-- An entry of an enum without options. -/
theorem derives_enumValue (name number : String) (hk : k.isName = true)
    (hnumber : (NumberLit.mk number nowhere).integer?.isSome = true) :
    Derives enumValue
      [(k, name), (.symbol .equals, "="), (.number, number), (.symbol .semicolon, ";")]
      ⟨⟨name, nowhere⟩, ⟨number, nowhere⟩, [], nowhere⟩ :=
  .bind (derives_name hk) <| .token <| .bind (derives_integer hnumber) <|
    .bind derives_options <| .token (.pure _)

/-- A body with one item. -/
theorem derives_body {ι : Type} {item : Rule ι} {a : ι} (h : Derives item ts a) :
    Derives (body item)
      ((.symbol .openBrace, "\x7b") :: (ts ++ [(.symbol .closeBrace, "\x7d")])) [a] :=
  .token <| .bind (.many_one (.left (h.map some))) <| .token (.pure _)

/-- A file with one statement, which is neither a version nor a package. -/
theorem derives_file {item : FileItem} (h : Derives fileItem ts item)
    (hpackage : packages [item] = []) : Derives file ts (File.ofItems [item]) :=
  .map File.ofItems (.satisfying (.many_one h) ⟨rfl, by simp [hpackage]⟩)

/-- A file of one message with one field. -/
theorem derives_messageFile {keyword name : String} {f : Field}
    (hk : k.isName = true) (h : Derives memberField ts f) :
    Derives file ((.keyword .message, keyword) :: (k, name) ::
      (.symbol .openBrace, "\x7b") :: (ts ++ [(.symbol .closeBrace, "\x7d")]))
      { messages := [{ Parser.emptyMessage ⟨name, nowhere⟩ nowhere with fields := [f] }]
        span := nowhere } := by
  have hitem : Derives (messageItem .nothing) ts (.field f) :=
    .right <| .right <| .right <| .right <| .right <| .right <| .right <| h.map MessageItem.field
  have hmessage : Derives message ((.keyword .message, keyword) :: (k, name) ::
      (.symbol .openBrace, "\x7b") :: (ts ++ [(.symbol .closeBrace, "\x7d")]))
      (Message.ofItems ⟨name, nowhere⟩ [.field f]) :=
    .nested <| .token <| .bind (derives_name hk) <| (derives_body hitem).bind_pure _
  have hfile : Derives fileItem _ (.message (Message.ofItems ⟨name, nowhere⟩ [.field f])) :=
    .right <| .right <| .right <| .right <| .right <| .right <| .left <|
      hmessage.map FileItem.message
  exact derives_file hfile rfl

/-- A file of one enum with one entry. -/
theorem derives_enumFile {keyword name : String} {v : EnumValue}
    (hk : k.isName = true) (h : Derives (enumValue.notAt (· = .keyword .option)) ts v) :
    Derives file ((.keyword .enum, keyword) :: (k, name) ::
      (.symbol .openBrace, "\x7b") :: (ts ++ [(.symbol .closeBrace, "\x7d")]))
      { enums := [⟨⟨name, nowhere⟩, [v], [], [], nowhere⟩], span := nowhere } := by
  have hitem : Derives enumItem ts (.value v) := .right <| .right <| h.map EnumItem.value
  have henum : Derives enumDecl ((.keyword .enum, keyword) :: (k, name) ::
      (.symbol .openBrace, "\x7b") :: (ts ++ [(.symbol .closeBrace, "\x7d")]))
      (EnumDecl.ofItems ⟨name, nowhere⟩ [.value v]) :=
    .token <| .bind (derives_name hk) <| (derives_body hitem).bind_pure _
  have hfile : Derives fileItem _ (.enum (EnumDecl.ofItems ⟨name, nowhere⟩ [.value v])) :=
    .right <| .right <| .right <| .right <| .right <| .left <| henum.map FileItem.enum
  exact derives_file hfile rfl

end Grammar

/-! ## Sources -/

/-- What is scanned from a source, and derived from its tokens, is read without any fault. -/
theorem parse_of_scans {source : String} {ts : List (Kind × String)} {tree : File}
    (hscans : Scans source.toList ts) (hderives : Derives Grammar.file ts tree)
    (hplain : ∀ t ∈ ts, t.1 ≠ .comment ∧ t.1 ≠ .endOfFile) :
    (tokenize source).errors = [] ∧ (parse (tokenize source).tokens).errors = [] ∧
      bare (parse (tokenize source).tokens).file = tree := by
  obtain ⟨htokens, herrors⟩ := hscans Place.origin
  refine ⟨herrors, parse_of_derives (hderives _ ?_)⟩
  rw [← htokens]
  congr 1
  have hkinds : ∀ t ∈ (located source).filterMap fun item => item.2.token? item.1,
      t.kind ≠ .comment ∧ t.kind ≠ .endOfFile := by
    intro t ht
    exact hplain (t.kind, t.value) (htokens ▸ List.mem_map_of_mem ht)
  rw [tokenize_tokens, significant, List.takeWhile_append_of_pos, List.takeWhile_cons_of_neg,
    List.append_nil, List.filter_eq_self.2]
  · rfl
  · intro t ht
    simpa [Cursor.isComment] using (hkinds t ht).1
  · simp [Cursor.isClose, Token.endOfFile]
  · intro t ht
    simpa [Cursor.isClose] using (hkinds t ht).2

/-- Whether a word spells a keyword, in whatever letter case. -/
def Spells (word : String) (k : Keyword) : Prop :=
  word.toList.map Char.toLower = k.spelling.toList

theorem kindOfWord_ne {word : String} {k : Keyword} (h : ¬Spells word k) :
    kindOfWord word.toList ≠ .keyword k :=
  mt toLower_of_kindOfWord h

theorem labelOf?_kindOfWord {word : String}
    (h : ∀ k ∈ [Keyword.optional, .required, .repeated], ¬Spells word k) :
    (Parser.labelOf? (kindOfWord word.toList)).isSome = false := by
  have hoptional := kindOfWord_ne (h .optional (by simp))
  have hrequired := kindOfWord_ne (h .required (by simp))
  have hrepeated := kindOfWord_ne (h .repeated (by simp))
  unfold Parser.labelOf?
  split
  · exact absurd ‹_› hoptional
  · exact absurd ‹_› hrequired
  · exact absurd ‹_› hrepeated
  · rfl

/-- What follows the last name of a statement. -/
theorem scans_rest {d : Char} (hd : d.isDigit = true) :
    Scans [' ', '=', ' ', d, ';', ' ', '\x7d']
      [(.symbol .equals, "="), (.number, String.ofList [d]), (.symbol .semicolon, ";"),
        (.symbol .closeBrace, "\x7d")] := by
  have hclose := (scans_nil.symbol .closeBrace (by simp [Stops])).blank (c := ' ') (by decide)
  have hsemicolon := hclose.symbol .semicolon (stops_cons (by decide))
  have hnumber := hsemicolon.digit hd (stops_cons (by decide))
  exact ((hnumber.blank (by decide)).symbol .equals (stops_cons (by decide))).blank (by decide)

/-- The words in front of the first name of a statement. -/
theorem scans_front {word : List Char} {c : Char} {k : Keyword} {rest : List Char}
    {ts : List (Kind × String)} (h : Scans rest ts) (hword : isWord word = true)
    (hk : kindOfWord word = .keyword k) (hc : isWord [c] = true)
    (hname : kindOfWord [c] = .identifier) :
    Scans (word ++ ' ' :: c :: ' ' :: '\x7b' :: ' ' :: rest)
      ((.keyword k, String.ofList word) :: (.identifier, String.ofList [c]) ::
        (.symbol .openBrace, "\x7b") :: ts) := by
  rw [← hk, ← hname]
  have hbrace := (h.blank (c := ' ') (by decide)).symbol .openBrace (stops_cons (by decide))
  have hnamed := (hbrace.blank (c := ' ') (by decide)).word hc (stops_cons (by decide))
  exact (hnamed.blank (c := ' ') (by decide)).word hword (stops_cons (by decide))

section
variable {w n : String}

theorem scans_fieldSource (hw : isWord w.toList = true) (hn : isWord n.toList = true) :
    Scans ("message M \x7b " ++ w ++ " " ++ n ++ " = 1; \x7d").toList
      [(.keyword .message, "message"), (.identifier, "M"), (.symbol .openBrace, "\x7b"),
        (kindOfWord w.toList, w), (kindOfWord n.toList, n), (.symbol .equals, "="), (.number, "1"),
        (.symbol .semicolon, ";"), (.symbol .closeBrace, "\x7d")] := by
  have hname := (scans_rest (d := '1') (by decide)).word hn (stops_cons (by decide))
  have htype := (hname.blank (c := ' ') (by decide)).word hw (stops_cons (by decide))
  have hmessage : isWord "message".toList = true := by decide
  have hfront := scans_front (c := 'M') htype hmessage rfl (by decide) rfl
  rw [String.ofList_toList, String.ofList_toList] at hfront
  simpa using hfront

theorem scans_valueSource (hw : isWord w.toList = true) :
    Scans ("enum E \x7b " ++ w ++ " = 0; \x7d").toList
      [(.keyword .enum, "enum"), (.identifier, "E"), (.symbol .openBrace, "\x7b"),
        (kindOfWord w.toList, w), (.symbol .equals, "="), (.number, "0"),
        (.symbol .semicolon, ";"), (.symbol .closeBrace, "\x7d")] := by
  have hname := (scans_rest (d := '0') (by decide)).word hw (stops_cons (by decide))
  have henum : isWord "enum".toList = true := by decide
  have hfront := scans_front (c := 'E') hname henum rfl (by decide) rfl
  rw [String.ofList_toList] at hfront
  simpa using hfront

end

/-- A word is an ordinary name, also where it is a keyword in whatever letter case: in the place of
a type it is a type, unless it is the word `option` or a label, and in the place of an enum value it
is that value, unless it is the word `option`. -/
theorem parse_ordinary_name (w : String) (hw : isWord w.toList = true) :
    (∀ n : String, isWord n.toList = true →
      (∀ k ∈ [Keyword.option, .optional, .required, .repeated], ¬Spells w k) →
      let scan := tokenize ("message M \x7b " ++ w ++ " " ++ n ++ " = 1; \x7d")
      let field : Field := ⟨none, ⟨⟨w, nowhere⟩, [], nowhere⟩, ⟨n, nowhere⟩, ⟨"1", nowhere⟩, [],
        nowhere⟩
      scan.errors = [] ∧ (parse scan.tokens).errors = [] ∧
        bare (parse scan.tokens).file =
          { messages := [{ Parser.emptyMessage ⟨"M", nowhere⟩ nowhere with fields := [field] }]
            span := nowhere }) ∧
    (¬Spells w .option →
      let scan := tokenize ("enum E \x7b " ++ w ++ " = 0; \x7d")
      let value : EnumValue := ⟨⟨w, nowhere⟩, ⟨"0", nowhere⟩, [], nowhere⟩
      scan.errors = [] ∧ (parse scan.tokens).errors = [] ∧
        bare (parse scan.tokens).file =
          { enums := [⟨⟨"E", nowhere⟩, [value], [], [], nowhere⟩], span := nowhere }) := by
  have hname := isName_kindOfWord w.toList
  refine ⟨fun n hn hspells => ?_, fun hspells => ?_⟩
  · have hlabel := labelOf?_kindOfWord fun k hk => hspells k (List.mem_cons_of_mem _ hk)
    have hoption := kindOfWord_ne (hspells .option List.mem_cons_self)
    have hfield := Grammar.derives_memberField w n "1" hname hlabel hoption
      (isName_kindOfWord n.toList) (by decide)
    refine parse_of_scans (scans_fieldSource hw hn) (Grammar.derives_messageFile rfl hfield) ?_
    simp [kindOfWord_plain]
  · have hvalue := Grammar.derives_enumValue w "0" hname (by decide)
    have hentry := hvalue.notAt (P := (· = .keyword .option)) (kindOfWord_ne hspells)
    refine parse_of_scans (scans_valueSource hw) (Grammar.derives_enumFile rfl hentry) ?_
    simp [kindOfWord_plain]

/-- A type that is written as the word `reserved`, of a field that is written as `option`. -/
theorem parse_ordinary_name_reserved :
    let message := tokenize ("message M \x7b " ++ "Reserved" ++ " " ++ "Option" ++ " = 1; \x7d")
    let enum := tokenize ("enum E \x7b " ++ "Reserved" ++ " = 0; \x7d")
    isWord "Reserved".toList = true ∧ isWord "Option".toList = true ∧
      (∀ k ∈ [Keyword.option, .optional, .required, .repeated], ¬Spells "Reserved" k) ∧
      (bare (parse message.tokens).file).messages.map (·.fields) =
        [[⟨none, ⟨⟨"Reserved", nowhere⟩, [], nowhere⟩, ⟨"Option", nowhere⟩, ⟨"1", nowhere⟩, [],
          nowhere⟩]] ∧
      (bare (parse enum.tokens).file).enums.map (·.values) =
        [[⟨⟨"Reserved", nowhere⟩, ⟨"0", nowhere⟩, [], nowhere⟩]] := by
  have hspells : ∀ k ∈ [Keyword.option, .optional, .required, .repeated], ¬Spells "Reserved" k := by
    unfold Spells
    decide
  obtain ⟨hfield, hvalue⟩ := parse_ordinary_name "Reserved" (by decide)
  obtain ⟨-, -, hmessage⟩ := hfield "Option" (by decide) hspells
  obtain ⟨-, -, henum⟩ := hvalue (hspells .option List.mem_cons_self)
  refine ⟨by decide, by decide, hspells, ?_, ?_⟩
  · rw [hmessage]
    rfl
  · rw [henum]
    rfl

/-- The word `option` begins an option in any letter case: there is no field then, and no fault; and
an enum has no value of that name.  A label is one in any letter case too, and is no type. -/
theorem parse_capitalised_option :
    let read := fun source => parse (tokenize source).tokens
    (∀ w ∈ ["Option", "Optional", "Required", "Repeated"],
      isWord w.toList = true ∧ w.toList.any Char.isUpper = true) ∧
      (read "message M \x7b Option n = 1; \x7d").errors = [] ∧
      (read "message M \x7b Option n = 1; \x7d").file.messages.map
        (fun m => (m.fields.length, m.options.length)) = [(0, 1)] ∧
      (read "enum E \x7b Option = 0; \x7d").errors ≠ [] ∧
      ∀ w ∈ ["Optional", "Required", "Repeated"],
        (read ("message M \x7b " ++ w ++ " n = 1; \x7d")).errors ≠ [] := by
  decide +kernel

end Schema

end ProtoDecl
