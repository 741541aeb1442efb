import ProtoDecl.Command.Run

/-!
# All or nothing

A run either succeeds, and then has written the file it was asked for and no other, or it fails, and
then has changed no file and printed nothing to the standard output.

* `Due` says which bytes an action is to write, given how files are read.
* `Honest` says that whatever stops a computation is a failure.  It is closed under sequences, so
  every step of a command is looked at once.
* `planAction_cases` and `planAction_of_due` say what an action comes to: a plan to store the bytes
  that are due, where a file is named, and a plan to print otherwise.

Both hold however files are read, and whatever forms arguments, settings and listings have.
`run_cases` and `run_all_or_nothing` carry them over to directories, where the one thing that is
stored is the last thing that can fail.
-/

namespace ProtoDecl

open TypeScript (Options)

/-- A source is read where neither its pieces nor its tokens are at fault. -/
theorem readSchema_eq_ok {source : String} {file : Schema.File} :
    readSchema source = .ok file ↔ (tokenize source).errors = [] ∧
      (Schema.parse (tokenize source).tokens).errors = [] ∧
      file = (Schema.parse (tokenize source).tokens).file := by
  unfold readSchema
  dsimp only
  cases (tokenize source).errors with
  | cons e es => simp
  | nil =>
    cases (Schema.parse (tokenize source).tokens).errors with
    | cons e es => simp
    | nil => simp [eq_comm]

/-- What makes settings unusable is an indentation of zero, and a mapping that fits all paths. -/
theorem Settings.checked_eq_ok {s t : Settings} :
    s.checked = .ok t ↔ s.indentSize ≠ some 0 ∧ (∀ m ∈ s.mappings, m.source ≠ "") ∧ s = t := by
  unfold checked fault?
  by_cases hindent : s.indentSize = some 0
  · simp [hindent]
  · rw [if_neg hindent]
    cases hfind : s.mappings.find? fun m => m.source.isEmpty with
    | some m =>
      have hempty : m.source = "" := by simpa using List.find?_some hfind
      simp only [Option.map_some, reduceCtorEq, false_iff]
      exact fun h => h.2.1 m (List.mem_of_find?_eq_some hfind) hempty
    | none =>
      have hnone : ∀ m ∈ s.mappings, m.source ≠ "" := by simpa using hfind
      change (Except.ok s : Except SettingsError Settings) = .ok t ↔ _
      rw [Except.ok.injEq]
      exact ⟨fun h => ⟨hindent, hnone, h⟩, fun h => h.2.2⟩

namespace Command

variable {α β : Type} {c : Conventions} {read : Reader} {path : String}

/-! ## What an action is to write -/

/-- The path of the file that an action is to write. -/
def Action.output? : Action → Option String
  | .compile _ output _ _ => output
  | .descriptor _ output _ => some output
  | .tokens _ => none
  | .tree _ => none

/-- The options that a file with settings gives, or the usual ones without such a file. -/
inductive Sets (c : Conventions) (read : Reader) : Option String → Options → Prop
  | usual : Sets c read none {}
  | file {path text : String} {settings : Settings} (held : read path = .ok (bytesOf text))
      (written : c.settings text = .ok settings) (indented : settings.indentSize ≠ some 0)
      (mapped : ∀ m ∈ settings.mappings, m.source ≠ "") : Sets c read (some path) settings.options

/-- The options with the indentation that is asked for, which must not be zero. -/
inductive Indents (options : Options) : Option Nat → Options → Prop
  | usual : Indents options none options
  | set {n : Nat} (positive : 0 < n) : Indents options (some n) { options with indentSize := n }

/-- The bytes that an action is to write: the declarations or the descriptor of the text that its
input file holds. -/
inductive Due (c : Conventions) (read : Reader) : Action → Bytes → Prop
  | declarations {input output source : String} {indent : Option Nat} {settings : Option String}
      {base options : Options} (held : read input = .ok (bytesOf source))
      (sets : Sets c read settings base) (indents : Indents base indent options)
      (clean : (compile source options).errors = []) :
      Due c read (.compile input (some output) indent settings)
        (bytesOf (compile source options).code)
  | descriptor {input output source : String} {name : Option String}
      (held : read input = .ok (bytesOf source)) (scanned : (tokenize source).errors = [])
      (parsed : (Schema.parse (tokenize source).tokens).errors = []) :
      Due c read (.descriptor input output name)
        (Descriptor.encodeSet (Schema.parse (tokenize source).tokens).file (name.getD input))

/-! ## Failures -/

/-- Whether a run failed and left the standard output empty. -/
structure Output.Failed (o : Output) : Prop where
  exit : o.exit ≠ 0
  stdout : o.stdout = ""

theorem failed_failure (before message : String) (causes : List String) :
    (failure before message causes).Failed :=
  ⟨Nat.one_ne_zero, rfl⟩

theorem failed_rejected (before input source : String) (errors : List Diagnostic) :
    (rejected before input source errors).Failed :=
  failed_failure _ _ _

/-- Whatever stops the computation is a failure. -/
def Honest (x : Except Output α) : Prop :=
  ∀ o, x = .error o → o.Failed

theorem honest_ok (a : α) : Honest (.ok a) :=
  fun _ h => nomatch h

theorem honest_error {o : Output} (h : o.Failed) : Honest (.error o : Except Output α) :=
  fun _ heq => Except.error.inj heq ▸ h

theorem honest_bind {x : Except Output α} {f : α → Except Output β} (hx : Honest x)
    (hf : ∀ a, Honest (f a)) : Honest (x >>= f) := by
  cases x with
  | error o => exact honest_error (hx o rfl)
  | ok a => exact hf a

theorem honest_mapError {ε : Type} (x : Except ε α) {f : ε → Output} (hf : ∀ e, (f e).Failed) :
    Honest (x.mapError f) := by
  cases x with
  | error e => exact honest_error (hf e)
  | ok a => exact honest_ok a

/-- What a sequence of steps comes to, if nothing stops it. -/
theorem bind_eq_ok {x : Except Output α} {f : α → Except Output β} {b : β} :
    (x >>= f) = .ok b ↔ ∃ a, x = .ok a ∧ f a = .ok b := by
  cases x with
  | error o => exact ⟨fun h => (nomatch h), fun ⟨_, h, _⟩ => (nomatch h)⟩
  | ok a => exact ⟨fun h => ⟨a, rfl, h⟩, fun ⟨_, ha, h⟩ => Except.ok.inj ha ▸ h⟩

theorem exists_bind_eq_ok {x : Except Output α} {f : α → Except Output β} {a : α} (hx : x = .ok a)
    (hf : ∃ b, f a = .ok b) : ∃ b, (x >>= f) = .ok b := by
  rw [hx]
  exact hf

theorem mapError_eq_ok {ε : Type} {x : Except ε α} {f : ε → Output} {a : α} :
    x.mapError f = .ok a ↔ x = .ok a := by
  cases x with
  | error e => exact ⟨fun h => (nomatch h), fun h => (nomatch h)⟩
  | ok a' =>
    change (Except.ok a' : Except Output α) = .ok a ↔ _
    rw [Except.ok.injEq, Except.ok.injEq]

/-! ## Reading -/

/-- Only the bytes of a text are decoded to it. -/
theorem fromUTF8?_eq_some {bytes : Bytes} {text : String} :
    String.fromUTF8? ⟨bytes.toArray⟩ = some text ↔ bytes = bytesOf text := by
  unfold String.fromUTF8? bytesOf
  constructor
  · intro h
    split at h
    · cases h
      rfl
    · cases h
  · rintro rfl
    rw [Array.toArray_toList]
    exact dif_pos text.isValidUTF8

/-- A text is read from the bytes that it is written in. -/
theorem readText_eq_ok {text : String} :
    readText read path = .ok text ↔ read path = .ok (bytesOf text) := by
  unfold readText
  cases read path with
  | error e => exact ⟨fun h => (nomatch h), fun h => (nomatch h)⟩
  | ok bytes =>
    dsimp only
    rw [Except.ok.injEq, ← fromUTF8?_eq_some]
    cases String.fromUTF8? ⟨bytes.toArray⟩ <;> simp

theorem readSource_eq_ok {input source : String} :
    readSource read input = .ok source ↔ read input = .ok (bytesOf source) :=
  mapError_eq_ok.trans readText_eq_ok

theorem honest_readSource (input : String) : Honest (readSource read input) :=
  honest_mapError _ fun _ => failed_failure _ _ _

theorem readOptions_eq_ok {settings : Option String} {options : Options} :
    c.readOptions read settings = .ok options ↔ Sets c read settings options := by
  cases settings with
  | none =>
    refine ⟨fun h => ?_, fun h => ?_⟩
    · cases h
      exact .usual
    · cases h
      rfl
  | some path =>
    unfold Conventions.readOptions
    dsimp only
    refine ⟨fun h => ?_, fun h => ?_⟩
    · split at h
      · cases h
      · rename_i text htext
        split at h
        · cases h
        · rename_i settings hsettings
          split at h
          · cases h
          · rename_i checked hchecked
            obtain ⟨hindent, hmapped, rfl⟩ := Settings.checked_eq_ok.1 hchecked
            cases h
            exact .file (readText_eq_ok.1 htext) hsettings hindent hmapped
    · cases h with
      | file held written indented mapped =>
        rw [readText_eq_ok.2 held]
        dsimp only
        rw [written]
        dsimp only
        rw [Settings.checked_eq_ok.2 ⟨indented, mapped, rfl⟩]

theorem honest_readOptions (settings : Option String) : Honest (c.readOptions read settings) := by
  cases settings with
  | none => exact honest_ok _
  | some path =>
    unfold Conventions.readOptions
    dsimp only
    split
    · exact honest_error (failed_failure _ _ _)
    split
    · exact honest_error (failed_failure _ _ _)
    split
    · exact honest_error (failed_failure _ _ _)
    · exact honest_ok _

theorem withIndent_eq_ok {base options : Options} {indent : Option Nat} :
    withIndent base indent = .ok options ↔ Indents base indent options := by
  match indent with
  | none =>
    refine ⟨fun h => ?_, fun h => ?_⟩
    · cases h
      exact .usual
    · cases h
      rfl
  | some 0 =>
    refine ⟨fun h => (nomatch h), fun h => ?_⟩
    cases h with
    | set positive => exact absurd positive (Nat.lt_irrefl 0)
  | some (n + 1) =>
    refine ⟨fun h => ?_, fun h => ?_⟩
    · cases h
      exact .set n.succ_pos
    · cases h
      rfl

theorem honest_withIndent (base : Options) (indent : Option Nat) :
    Honest (withIndent base indent) := by
  match indent with
  | none => exact honest_ok _
  | some 0 => exact honest_error (failed_failure _ _ _)
  | some (n + 1) => exact honest_ok _

theorem readFile_eq_ok {input : String} {file : Schema.File} :
    readFile read input = .ok file ↔
      ∃ source, read input = .ok (bytesOf source) ∧ readSchema source = .ok file := by
  unfold readFile
  rw [bind_eq_ok]
  simp only [readSource_eq_ok, mapError_eq_ok]

theorem honest_readFile (input : String) : Honest (readFile read input) :=
  honest_bind (honest_readSource input) fun _ =>
    honest_mapError _ fun _ => failed_rejected _ _ _ _

/-! ## Plans -/

theorem honest_planAction (verbose : Bool) (action : Action) :
    Honest (c.planAction read verbose action) := by
  cases action with
  | compile input output indent settings =>
    refine honest_bind (honest_readSource input) fun source => ?_
    refine honest_bind (honest_readOptions settings) fun base => ?_
    refine honest_bind (honest_withIndent base indent) fun options => ?_
    -- What is left can only stop at errors in the source.
    dsimp only
    split
    · exact honest_error (failed_rejected _ _ _ _)
    · cases output <;> exact honest_ok _
  | tokens input =>
    refine honest_bind (honest_readSource input) fun source => ?_
    dsimp only
    split
    · exact honest_error (failed_rejected _ _ _ _)
    · exact honest_ok _
  | tree input => exact honest_bind (honest_readFile input) fun _ => honest_ok _
  | descriptor input output name =>
    exact honest_bind (honest_readFile input) fun _ => honest_ok _

/-- What an action comes to.  Where it names no file, something is printed; where it names one, the
bytes that are due are to be stored there. -/
theorem planAction_cases {verbose : Bool} {action : Action} {p : Plan}
    (h : c.planAction read verbose action = .ok p) :
    (action.output? = none ∧ ∃ o, p = .print o ∧ o.exit = 0) ∨
      ∃ path bytes before done, action.output? = some path ∧ Due c read action bytes ∧
        p = storeFile before path bytes done := by
  cases action with
  | compile input output indent settings =>
    obtain ⟨source, hsource, h⟩ := bind_eq_ok.1 h
    obtain ⟨base, hbase, h⟩ := bind_eq_ok.1 h
    obtain ⟨options, hoptions, h⟩ := bind_eq_ok.1 h
    dsimp only at h
    split at h
    · cases h
    · rename_i hok
      have hclean : (compile source options).errors = [] := by
        simpa [Compiled.isOk] using hok
      cases output with
      | none =>
        cases h
        exact .inl ⟨rfl, _, rfl, rfl⟩
      | some path =>
        cases h
        exact .inr ⟨path, _, _, _, rfl, .declarations (readSource_eq_ok.1 hsource)
          (readOptions_eq_ok.1 hbase) (withIndent_eq_ok.1 hoptions) hclean, rfl⟩
  | tokens input =>
    obtain ⟨source, -, h⟩ := bind_eq_ok.1 h
    dsimp only at h
    split at h
    · cases h
    · cases h
      exact .inl ⟨rfl, _, rfl, rfl⟩
  | tree input =>
    obtain ⟨file, -, h⟩ := bind_eq_ok.1 h
    cases h
    exact .inl ⟨rfl, _, rfl, rfl⟩
  | descriptor input output name =>
    obtain ⟨file, hfile, h⟩ := bind_eq_ok.1 h
    cases h
    obtain ⟨source, hheld, hschema⟩ := readFile_eq_ok.1 hfile
    obtain ⟨hscanned, hparsed, rfl⟩ := readSchema_eq_ok.1 hschema
    exact .inr ⟨output, _, _, _, rfl, .descriptor hheld hscanned hparsed, rfl⟩

/-- An action for which bytes are due comes to a plan. -/
theorem planAction_of_due (verbose : Bool) {action : Action} {bytes : Bytes}
    (h : Due c read action bytes) : ∃ p, c.planAction read verbose action = .ok p := by
  cases h with
  | @declarations input output source indent settings base options held sets indents clean =>
    have hok : (compile source options).isOk = true := by simp [Compiled.isOk, clean]
    refine exists_bind_eq_ok (readSource_eq_ok.2 held) ?_
    refine exists_bind_eq_ok (readOptions_eq_ok.2 sets) ?_
    refine exists_bind_eq_ok (withIndent_eq_ok.2 indents) ?_
    dsimp only
    rw [hok]
    exact ⟨_, rfl⟩
  | descriptor held scanned parsed =>
    have hfile := readFile_eq_ok.2 ⟨_, held, readSchema_eq_ok.2 ⟨scanned, parsed, rfl⟩⟩
    exact exists_bind_eq_ok hfile ⟨_, rfl⟩

/-! ## Runs -/

/-- A path can be written to if it leads to a file of the directory. -/
theorem write_eq_ok {d d' : Directory} {bytes : Bytes} :
    d.write path bytes = .ok d' ↔
      ∃ name, Directory.target path = .file name ∧ d' = d.store name bytes := by
  unfold Directory.write
  cases Directory.target path <;> simp [eq_comm]

/-- Whether arguments ask for an action that is to write the file of the given name. -/
def NamesOutput (c : Conventions) (arguments : List String) (name : String) : Prop :=
  ∃ action verbose path, c.request arguments = .perform action verbose ∧
    action.output? = some path ∧ Directory.target path = .file name

/-- What a run leaves behind: a failure and the directory as it was, or something printed and the
directory as it was, or the file that was asked for. -/
theorem run_cases (c : Conventions) (arguments : List String) (d : Directory) :
    ((c.run arguments d).1.Failed ∧ (c.run arguments d).2 = d) ∨
    ((c.run arguments d).1.exit = 0 ∧ (c.run arguments d).2 = d ∧
      ∀ action verbose, c.request arguments = .perform action verbose → action.output? = none) ∨
    ∃ action verbose path name bytes, c.request arguments = .perform action verbose ∧
      action.output? = some path ∧ Directory.target path = .file name ∧
      Due c d.read action bytes ∧ (c.run arguments d).1.exit = 0 ∧
      (c.run arguments d).2 = d.store name bytes := by
  unfold Conventions.run Conventions.plan
  cases hrequest : c.request arguments with
  | refuse reason => exact .inl ⟨⟨Nat.succ_ne_zero 1, rfl⟩, rfl⟩
  | inform text => exact .inr (.inl ⟨rfl, rfl, fun _ _ h => nomatch h⟩)
  | perform action verbose =>
    dsimp only
    cases hplan : c.planAction d.read verbose action with
    | error o => exact .inl ⟨honest_planAction verbose action o hplan, rfl⟩
    | ok p =>
      dsimp only
      rcases planAction_cases hplan with ⟨hnone, o, rfl, hexit⟩ |
        ⟨path, bytes, before, done, hpath, hdue, rfl⟩
      · refine .inr (.inl ⟨hexit, rfl, fun _ _ h => ?_⟩)
        cases h
        exact hnone
      · -- Everything is decided; only the writing itself may fail.
        unfold storeFile
        dsimp only
        cases hwrite : d.write path bytes with
        | error e => exact .inl ⟨failed_failure _ _ _, rfl⟩
        | ok d' =>
          obtain ⟨name, hname, rfl⟩ := write_eq_ok.1 hwrite
          exact .inr (.inr ⟨action, verbose, path, name, bytes, rfl, hpath, hname, hdue, rfl, rfl⟩)

/-- A run succeeds where bytes are due and the path that is named leads to a file. -/
theorem exit_of_due {arguments : List String} {d : Directory} {action : Action} {verbose : Bool}
    {name : String} {bytes : Bytes} (hrequest : c.request arguments = .perform action verbose)
    (hpath : action.output? = some path) (hname : Directory.target path = .file name)
    (hdue : Due c d.read action bytes) : (c.run arguments d).1.exit = 0 := by
  obtain ⟨p, hplan⟩ := planAction_of_due verbose hdue
  rcases planAction_cases hplan with ⟨hnone, -⟩ | ⟨path', bytes', before, done, hpath', -, rfl⟩
  · rw [hnone] at hpath
    cases hpath
  · obtain rfl : path' = path := Option.some.inj (hpath'.symm.trans hpath)
    have hwrite : d.write path' bytes' = .ok (d.store name bytes') :=
      write_eq_ok.2 ⟨name, hname, rfl⟩
    unfold Conventions.run Conventions.plan
    rw [hrequest]
    dsimp only
    rw [hplan]
    unfold storeFile
    dsimp only
    rw [hwrite]

/-- A run is all or nothing, whatever forms arguments, settings and listings have.

If it fails, the directory is as it was and nothing was printed to the standard output.  If it
succeeds, every file is as it was, except the one named for output; and that file holds the bytes
that are due, which the input and the settings determine.  A run that names a file for output
succeeds whenever bytes are due and the path leads to a file. -/
theorem run_all_or_nothing (c : Conventions) (arguments : List String) (d : Directory) :
    ((c.run arguments d).1.exit ≠ 0 →
      (c.run arguments d).2 = d ∧ (c.run arguments d).1.stdout = "") ∧
    ((c.run arguments d).1.exit = 0 → ∀ name, ¬NamesOutput c arguments name →
      (c.run arguments d).2.contents? name = d.contents? name) ∧
    ∀ action verbose path, c.request arguments = .perform action verbose →
      action.output? = some path →
      ((c.run arguments d).1.exit = 0 → ∃ name bytes, Directory.target path = .file name ∧
        Due c d.read action bytes ∧ (c.run arguments d).2.contents? name = some bytes) ∧
      (∀ name bytes, Directory.target path = .file name → Due c d.read action bytes →
        (c.run arguments d).1.exit = 0) := by
  have hcases := run_cases c arguments d
  refine ⟨fun hexit => ?_, fun _ name hname => ?_, fun action verbose path hrequest hpath =>
    ⟨fun hexit => ?_, fun name bytes htarget hdue => exit_of_due hrequest hpath htarget hdue⟩⟩
  · rcases hcases with ⟨hfailed, hdir⟩ | ⟨hzero, -⟩ | ⟨_, _, _, _, _, -, -, -, -, hzero, -⟩
    · exact ⟨hdir, hfailed.stdout⟩
    · exact absurd hzero hexit
    · exact absurd hzero hexit
  · rcases hcases with ⟨-, hdir⟩ | ⟨-, hdir, -⟩ |
      ⟨action, verbose, path, name', bytes, hrequest, hpath, htarget, -, -, hdir⟩
    · rw [hdir]
    · rw [hdir]
    · have hne : name ≠ name' := by
        rintro rfl
        exact hname ⟨action, verbose, path, hrequest, hpath, htarget⟩
      rw [hdir, Directory.contents?_store, if_neg hne]
  · rcases hcases with ⟨hfailed, -⟩ | ⟨-, -, hnone⟩ |
      ⟨action', verbose', path', name, bytes, hrequest', hpath', htarget, hdue, -, hdir⟩
    · exact absurd hexit hfailed.exit
    · have hnone' := hnone action verbose hrequest
      rw [hpath] at hnone'
      cases hnone'
    · obtain ⟨rfl, rfl⟩ : action' = action ∧ verbose' = verbose := by
        simpa [hrequest] using hrequest'.symm
      obtain rfl : path' = path := Option.some.inj (hpath'.symm.trans hpath)
      refine ⟨name, bytes, htarget, hdue, ?_⟩
      rw [hdir, Directory.contents?_store, if_pos rfl]

/-- Under the conventions of the program, a message is written to the file named for it, and a
faulty one is not. -/
theorem run_all_or_nothing_compile :
    let arguments := ["compile", "m.proto", "-o", "m.ts"]
    let good : Directory := ⟨[("m.proto", bytesOf "message M \x7b\x7d"), ("m.ts", [])]⟩
    let bad : Directory := ⟨[("m.proto", bytesOf "message M \x7b"), ("m.ts", [])]⟩
    (run arguments good).2.contents? "m.proto" = good.contents? "m.proto" ∧
    (∃ bytes, Due conventions good.read (.compile "m.proto" (some "m.ts") none none) bytes ∧
      (run arguments good).2.contents? "m.ts" = some bytes) ∧
    (run arguments bad).2 = bad ∧ (run arguments bad).1.stdout = "" := by
  intro arguments good bad
  have hrequest : conventions.request arguments =
      .perform (.compile "m.proto" (some "m.ts") none none) false := by decide +kernel
  have hgood : (run arguments good).1.exit = 0 := by decide +kernel
  have hbad : (run arguments bad).1.exit ≠ 0 := by decide +kernel
  have hother : ¬NamesOutput conventions arguments "m.proto" := by
    rintro ⟨action, verbose, path, hperform, hpath, htarget⟩
    obtain ⟨rfl, -⟩ : _ = action ∧ _ := by simpa [hrequest] using hperform
    cases hpath
    revert htarget
    decide +kernel
  obtain ⟨-, hunchanged, hwritten⟩ := run_all_or_nothing conventions arguments good
  obtain ⟨name, bytes, htarget, hdue, hcontents⟩ := (hwritten _ _ _ hrequest rfl).1 hgood
  have hname : Directory.target "m.ts" = .file "m.ts" := by decide +kernel
  obtain rfl : "m.ts" = name := by simpa [hname] using htarget
  exact ⟨hunchanged hgood "m.proto" hother, ⟨bytes, hdue, hcontents⟩,
    (run_all_or_nothing conventions arguments bad).1 hbad⟩

end Command

end ProtoDecl
