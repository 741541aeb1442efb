import ProtoDecl.Proofs.Grammar.Services

/-!
# Reading files

Of the statements of a file, those that name the version and the package are bound to a place and a
number.  While a file is read, what is still allowed depends on the statements before
(`admits`); over the whole file, it is what the grammar says (`fits_iff`).
-/

namespace ProtoDecl.Schema

namespace Parser

variable {c d : Cursor} {F : Kind → Prop}

/-! ## Statements -/

theorem edition_begins : Grammar.edition.Begins (· = .keyword .syntaxWord) :=
  (Rule.token_begins _).bind _

theorem parses_edition (hk : c.current.kind = .keyword .syntaxWord) :
    ParsesAt F c edition Grammar.edition := by
  unfold Grammar.edition Grammar.text
  simp only [Rule.bind_map]
  refine .take hk (by simp) (.expect (by simp) _ (.expectAs (by simp) _ fun _ => ?_))
  exact .close (by simp) (.spanned rfl)

theorem package_begins : Grammar.package.Begins (· = .keyword .package) :=
  (Rule.token_begins _).bind _

theorem parses_package (hk : c.current.kind = .keyword .package) :
    ParsesAt F c package Grammar.package := by
  refine .take hk (by simp) (.bind (parses_dottedName _) (fun _ => ?_) fun n c₁ _ => ?_)
  · exact ((Rule.token_begins _).bind _).offers (by rintro _ rfl; exact nofun)
  exact .close (by simp) (.spanned rfl)

theorem importStatement_begins : Grammar.importStatement.Begins (· = .keyword .importWord) :=
  (Rule.token_begins _).bind _

/-- What follows the modifier of an import, if there is one. -/
def notModifier (k : Kind) : Prop :=
  k ≠ .keyword .weak ∧ k ≠ .keyword .publicWord

theorem parses_importModifier :
    ParsesAt notModifier c importModifier Grammar.importModifier := by
  have hpublic : ParsesAt notModifier c
      (accept (.keyword .publicWord) >>= fun o =>
        if o.isSome then pure (some ImportModifier.publicly) else pure none)
      (pure none <|> .token (.keyword .publicWord) >>= fun _ => pure (some .publicly)) :=
    .accept (by simp) (fun _ => .pure rfl) (fun _ => .pure rfl)
      (Rule.offers_pure _ fun _ => And.right)
  have hweak : ParsesAt notModifier c importModifier
      ((pure none <|> .token (.keyword .publicWord) >>= fun _ => pure (some .publicly)) <|>
        .token (.keyword .weak) >>= fun _ => pure (some .weak)) := by
    refine .accept (by simp) (fun _ => .pure rfl) (fun _ => hpublic) (.or ?_ ?_)
    · exact Rule.offers_pure _ fun _ => And.left
    · exact ((Rule.token_begins _).bind _).offers (by rintro _ rfl; simp)
  refine hweak.of_iff fun w a => ?_
  simp only [Rule.bind_pure, Rule.or_iff, Grammar.importModifier]
  exact ⟨fun h => h.elim (fun h => .inr h.symm) .inl, fun h => h.elim .inr fun h => .inl h.symm⟩

theorem parses_importStatement (hk : c.current.kind = .keyword .importWord) :
    ParsesAt F c importStatement Grammar.importStatement := by
  unfold Grammar.importStatement Grammar.text
  simp only [Rule.bind_map]
  refine .take hk (by simp) (.bind parses_importModifier (fun _ => ?_) fun modifier c₁ _ => ?_)
  · exact ((Rule.token_begins _).bind _).offers (by rintro _ rfl; simp [notModifier])
  refine .expectAs (by simp) _ fun _ => ?_
  exact .close (by simp) (.spanned (by cases modifier <;> rfl))

/-! ## Files -/

/-- Whether a statement is allowed, behind those that a file was read from. -/
def admits (isFirst : Bool) (file : File) : Grammar.FileItem → Prop
  | .edition _ => isFirst = true
  | .package _ => file.package = none
  | _ => True

/-- Adds a statement to a file. -/
def addFileItem (file : File) : Grammar.FileItem → File
  | .empty => file
  | .edition e => { file with edition := some e }
  | .package p => { file with package := some p }
  | .importItem i => { file with imports := file.imports ++ [i] }
  | .option o => { file with options := file.options ++ [o] }
  | .enum e => { file with enums := file.enums ++ [e] }
  | .message m => { file with messages := file.messages ++ [m] }
  | .service s => { file with services := file.services ++ [s] }
  | .extend e => { file with extendBlocks := file.extendBlocks ++ [e] }

theorem parses_editionStatement (hk : c.current.kind = .keyword .syntaxWord) (isFirst : Bool)
    (file : File) :
    ParsesAt F c (editionStatement isFirst file)
      ((addFileItem (bare file) ∘ .edition) <$>
        Grammar.edition.satisfying fun _ => isFirst = true) := by
  cases isFirst with
  | true =>
    simp only [Rule.satisfying_true]
    exact (parses_edition hk).add fun e => by simp [File.seen_eq, addFileItem]
  | false =>
    refine .never (fun a d hread => ?_) fun w a ⟨e, he, _⟩ => Bool.false_ne_true he.2
    obtain ⟨o, c₁, ho, hread⟩ := reads_bind.1 hread
    obtain ⟨e, rfl, -⟩ := reads_attempt.1 ho
    obtain ⟨u, c₂, hu, -⟩ := reads_bind.1 hread
    exact not_reads_complain hu

theorem parses_packageStatement (hk : c.current.kind = .keyword .package) (file : File) :
    ParsesAt F c (packageStatement file)
      ((addFileItem (bare file) ∘ .package) <$>
        Grammar.package.satisfying fun _ => (bare file).package = none) := by
  cases hpackage : file.package with
  | none =>
    have hnone : (bare file).package = none := by simp [File.seen_eq, hpackage]
    simp only [hnone, Rule.satisfying_true]
    rw [← Rule.bind_pure]
    refine (parses_package hk).attempt (fun _ => Rule.offers_pure _ fun _ => id) fun p c₁ _ => ?_
    simp only [hpackage]
    exact .pure (by simp [File.seen_eq, addFileItem])
  | some p =>
    refine .never (fun a d hread => ?_) fun w a ⟨e, he, _⟩ => ?_
    · obtain ⟨o, c₁, ho, hread⟩ := reads_bind.1 hread
      obtain ⟨e, rfl, -⟩ := reads_attempt.1 ho
      simp only [hpackage] at hread
      obtain ⟨u, c₂, hu, -⟩ := reads_bind.1 hread
      exact not_reads_complain hu
    · have hnone := he.2
      simp [File.seen_eq, hpackage] at hnone

theorem parses_fileStatement (isFirst : Bool) (file : File) :
    ParsesAt anything c (fileStatement isFirst file)
      (addFileItem (bare file) <$> Grammar.fileItem.satisfying (admits isFirst (bare file))) := by
  simp only [Grammar.fileItem, Rule.satisfying_or, Rule.satisfying_map, admits,
    Rule.satisfying_true, Rule.map_or, Rule.map_map]
  refine Decides.all
    (.or (.kind ((Rule.token_begins _).map _) fun hk => ?_)
    (.or (.kind ((edition_begins.satisfying _).map _) fun hk => ?_)
    (.or (.kind ((package_begins.satisfying _).map _) fun hk => ?_)
    (.or (.kind (importStatement_begins.map _) fun hk => ?_)
    (.or (.kind (optionStatement_begins.map _) fun hk => ?_)
    (.or (.kind (enumDecl_begins.map _) fun hk => ?_)
    (.or (.kind (message_begins.map _) fun hk => ?_)
    (.or (.kind (service_begins.map _) fun hk => ?_)
    (.kind (extend_begins.map _) fun hk => ?_))))))))) fun hk a d hread => ?_
  case refine_10 =>
    replace hread := reads_kind_bind.1 hread
    split at hread <;> simp_all [not_reads_report_bind]
  all_goals
    refine .kind ?_
    rw [hk]
  · rw [← Rule.bind_pure]
    exact .skip hk (by simp) (.pure rfl)
  · exact parses_editionStatement hk isFirst file
  · exact parses_packageStatement hk file
  · exact (parses_importStatement hk).add fun i => by simp [File.seen_eq, addFileItem]
  · exact (parses_optionStatement hk).add fun o => by simp [File.seen_eq, addFileItem]
  · exact (parses_enumDecl hk).add fun e => by simp [File.seen_eq, addFileItem]
  · exact (parses_message c hk).add fun m => by simp [File.seen_eq, addFileItem]
  · exact (parses_service hk).add fun s => by simp [File.seen_eq, addFileItem]
  · exact (parses_extend hk).add fun e => by simp [File.seen_eq, addFileItem]

/-- Whether statements are allowed one after the other. -/
def Fits : Bool → File → List Grammar.FileItem → Prop
  | _, _, [] => True
  | isFirst, file, item :: items =>
    admits isFirst file item ∧ Fits false (addFileItem file item) items

theorem editions_cons (item : Grammar.FileItem) (items : List Grammar.FileItem) :
    Grammar.editions (item :: items) =
      (match item with | .edition e => [e] | _ => []) ++ Grammar.editions items := by
  cases item <;> rfl

theorem packages_cons (item : Grammar.FileItem) (items : List Grammar.FileItem) :
    Grammar.packages (item :: items) =
      (match item with | .package p => [p] | _ => []) ++ Grammar.packages items := by
  cases item <;> rfl

/-- Behind other statements, none names the version, and none a second package. -/
theorem fits_false_iff {file : File} {items : List Grammar.FileItem} :
    Fits false file items ↔ Grammar.editions items = [] ∧
      (Grammar.packages items).length ≤ if file.package.isNone then 1 else 0 := by
  induction items generalizing file with
  | nil => exact ⟨fun _ => ⟨rfl, Nat.zero_le _⟩, fun _ => trivial⟩
  | cons item items ih =>
    rw [Fits, ih, editions_cons, packages_cons]
    cases item
    case package p =>
      cases hpackage : file.package <;> simp [admits, addFileItem, hpackage]
    all_goals simp [admits, addFileItem]

theorem fits_iff {items : List Grammar.FileItem} :
    Fits true {} items ↔
      Grammar.editions items.tail = [] ∧ (Grammar.packages items).length ≤ 1 := by
  cases items with
  | nil => exact ⟨fun _ => ⟨rfl, Nat.zero_le _⟩, fun _ => trivial⟩
  | cons item items =>
    rw [Fits, fits_false_iff, packages_cons, List.tail_cons]
    cases item <;> simp [admits, addFileItem]

theorem foldl_addFileItem (items : List Grammar.FileItem) :
    items.foldl addFileItem {} = { Grammar.File.ofItems items with
      edition := (Grammar.editions items).getLast?
      package := (Grammar.packages items).getLast? } := by
  induction items using List.reverseRecOn with
  | nil => rfl
  | append_singleton items item ih =>
    rw [List.foldl_append, ih]
    cases item <;>
      simp [addFileItem, Grammar.File.ofItems, Grammar.editions, Grammar.packages]

theorem head?_eq_getLast? {α : Type} {l : List α} (h : l.length ≤ 1) : l.head? = l.getLast? := by
  match l, h with
  | [], _ => rfl
  | [a], _ => rfl

theorem foldl_addFileItem_of_fits {items : List Grammar.FileItem} (h : Fits true {} items) :
    items.foldl addFileItem {} = Grammar.File.ofItems items := by
  obtain ⟨heditions, hpackages⟩ := fits_iff.1 h
  have hlength : (Grammar.editions items).length ≤ 1 := by
    cases items with
    | nil => exact Nat.zero_le _
    | cons item items =>
      rw [editions_cons, show Grammar.editions items = [] from heditions]
      cases item <;> simp
  rw [foldl_addFileItem, ← head?_eq_getLast? hlength, ← head?_eq_getLast? hpackages]
  rfl

theorem reads_fileEntry {s : Bool × File} {r : Round (Bool × File)} :
    (fileEntry s).Reads c r d ↔
      (c.view = [] ∧ r = .done s ∧ d = c) ∨
      (c.view ≠ [] ∧ ∃ file,
        (fileStatement s.1 s.2).Reads c file d ∧ r = .again (false, file)) := by
  obtain ⟨isFirst, file⟩ := s
  have hend := Cursor.current_kind_eq_endOfFile_iff (c := c)
  rw [fileEntry, reads_kind_bind]
  split
  · simp [hend.1 ‹_›, reads_pure]
  · have hview : c.view ≠ [] := fun hview => absurd (hend.2 hview) ‹_›
    simp [hview, reads_bind_pure]

theorem fileItem_begins : Grammar.fileItem.Begins anything := by
  refine .or (.mono (.map (Rule.token_begins _) _) fun _ _ => trivial) ?_
  refine .or (.mono (.map edition_begins _) fun _ _ => trivial) ?_
  refine .or (.mono (.map package_begins _) fun _ _ => trivial) ?_
  refine .or (.mono (.map importStatement_begins _) fun _ _ => trivial) ?_
  refine .or (.mono (.map optionStatement_begins _) fun _ _ => trivial) ?_
  refine .or (.mono (.map enumDecl_begins _) fun _ _ => trivial) ?_
  refine .or (.mono (.map message_begins _) fun _ _ => trivial) ?_
  refine .or (.mono (.map service_begins _) fun _ _ => trivial) ?_
  exact .mono (.map extend_begins _) fun _ _ => trivial

theorem fileEntry_progress (s : Bool × File) (c : Cursor) (s' : Bool × File) (d : Cursor)
    (hround : (fileEntry s).Reads c (.again s') d) : d.remaining < c.remaining := by
  rcases reads_fileEntry.1 hround with ⟨-, hr, -⟩ | ⟨-, file, hfile, -⟩
  · cases hr
  · exact (parses_fileStatement s.1 s.2).progress ((fileItem_begins.satisfying _).map _) hfile

theorem fileStatements_sound {s s' : Bool × File}
    (hread : (fileStatements s).Reads c s' d) :
    ∃ items, Grammar.fileItem.many c.view items ∧ Fits s.1 (bare s.2) items ∧
      bare s'.2 = items.foldl addFileItem (bare s.2) := by
  refine Reads.loop_induct
    (P := fun s c s' _ => ∃ items, Grammar.fileItem.many c.view items ∧ Fits s.1 (bare s.2) items ∧
      bare s'.2 = items.foldl addFileItem (bare s.2))
    fileEntry_progress ?_ ?_ hread
  · intro s c s' d hlast
    rcases reads_fileEntry.1 hlast with ⟨hview, hr, -⟩ | ⟨-, _, -, hr⟩
    · cases hr
      rw [hview]
      exact ⟨[], .nil, trivial, rfl⟩
    · cases hr
  · rintro s c s₁ c₁ s' d hround ⟨items, hitems, hfits, hs'⟩
    rcases reads_fileEntry.1 hround with ⟨-, hr, -⟩ | ⟨-, file, hfile, hr⟩
    · cases hr
    · cases hr
      obtain ⟨w, hw, item, ⟨hitem, hadmits⟩, hadd⟩ := (parses_fileStatement s.1 s.2).sound hfile
      rw [hadd] at hfits hs'
      rw [hw]
      exact ⟨item :: items, .cons hitem hitems, ⟨hadmits, hfits⟩, hs'⟩

theorem fileStatements_complete {w : List Token} {items : List Grammar.FileItem}
    (hitems : Grammar.fileItem.many w items) {s : Bool × File} (hview : c.view = w)
    (hfits : Fits s.1 (bare s.2) items) :
    ∃ s' d, (fileStatements s).Reads c s' d ∧ bare s'.2 = items.foldl addFileItem (bare s.2) := by
  induction hitems generalizing s c with
  | nil =>
    refine ⟨s, c, (reads_loop fileEntry_progress).2 (.inl ?_), rfl⟩
    exact reads_fileEntry.2 (.inl ⟨hview, rfl, rfl⟩)
  | cons head _ ih =>
    obtain ⟨file, c₁, hfile, hc₁, hadd⟩ := (parses_fileStatement s.1 s.2).complete
      ⟨_, ⟨head, hfits.1⟩, rfl⟩ hview trivial
    obtain ⟨s', d, hread, hs'⟩ := ih (s := (false, file)) hc₁ (by rw [hadd]; exact hfits.2)
    have hne : c.view ≠ [] := by
      obtain ⟨t, v, rfl, -⟩ := fileItem_begins _ _ head
      simp [hview]
    refine ⟨s', d, (reads_loop fileEntry_progress).2 (.inr ⟨(false, file), c₁, ?_, hread⟩), ?_⟩
    · exact reads_fileEntry.2 (.inr ⟨hne, file, hfile, rfl⟩)
    · rw [hs', List.foldl_cons, ← hadd]

end Parser

/-! ## The theorem -/

theorem parse_of_reads {ts : List Token} {s : Bool × File} {d : Cursor}
    (h : (Parser.fileStatements (true, {})).Reads (Cursor.ofTokens ts) s d) :
    (parse ts).errors = [] ∧ bare (parse ts).file = { bare s.2 with span := nowhere } := by
  have hrun : (Parser.fileStatements (true, {})).run (Cursor.ofTokens ts) = (some s, d) := h.1
  rw [parse, hrun]
  exact ⟨h.2, rfl⟩

theorem reads_of_parse {ts : List Token} (h : (parse ts).errors = []) :
    ∃ s d, (Parser.fileStatements (true, {})).Reads (Cursor.ofTokens ts) s d := by
  obtain ⟨s, hs⟩ := Parser.reads_of_errors_eq (Parser.fileStatements (true, {}))
    (c := Cursor.ofTokens ts) h
  exact ⟨s, _, hs⟩

/-- What is read without errors, the grammar derives. -/
theorem derives_of_parse {ts : List Token} (h : (parse ts).errors = []) :
    Grammar.file (significant ts) (bare (parse ts).file) := by
  obtain ⟨s, d, hread⟩ := reads_of_parse h
  obtain ⟨items, hitems, hfits, hs⟩ := Parser.fileStatements_sound hread
  rw [Cursor.view_ofTokens] at hitems
  refine ⟨items, ⟨hitems, Parser.fits_iff.1 hfits⟩, ?_⟩
  rw [(parse_of_reads hread).2, hs]
  exact congrArg (fun f : File => { f with span := nowhere })
    (Parser.foldl_addFileItem_of_fits hfits)

/-- What the grammar derives is read without errors, as the tree of the derivation. -/
theorem parse_of_derives {ts : List Token} {tree : File}
    (h : Grammar.file (significant ts) tree) :
    (parse ts).errors = [] ∧ bare (parse ts).file = tree := by
  obtain ⟨items, ⟨hitems, hallowed⟩, rfl⟩ := h
  have hfits : Parser.Fits true {} items := Parser.fits_iff.2 hallowed
  obtain ⟨s, d, hread, hs⟩ := Parser.fileStatements_complete (s := (true, {})) hitems
    (Cursor.view_ofTokens ts) hfits
  refine ⟨(parse_of_reads hread).1, ?_⟩
  rw [(parse_of_reads hread).2, hs]
  exact congrArg (fun f : File => { f with span := nowhere })
    (Parser.foldl_addFileItem_of_fits hfits)

/-- A list of tokens is read without errors if and only if the grammar derives a tree from what
matters of it, and then the file is that tree, positions aside. -/
theorem parse_exact (ts : List Token) :
    ((parse ts).errors = [] ↔ ∃ tree, Grammar.file (significant ts) tree) ∧
      ∀ tree, Grammar.file (significant ts) tree → bare (parse ts).file = tree := by
  refine ⟨⟨fun h => ⟨_, derives_of_parse h⟩, ?_⟩, fun tree h => (parse_of_derives h).2⟩
  rintro ⟨tree, h⟩
  exact (parse_of_derives h).1

end ProtoDecl.Schema
