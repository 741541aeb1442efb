import ProtoDecl.Proofs.Nesting
import ProtoDecl.TypeScript.Generate

/-!
# The blocks of the output

The writer keeps a state and is told what to do call by call.  What it leaves behind is a layout that
is put together from blocks: a block is rendered at a depth, and blocks that stand side by side are
joined by one empty line.

* `lineAt`, a line at a depth, and `Block`, `Block.render`, the layout;
* `memberLine`, the line of a member, and `fileBlocks`, the blocks of a file;
* `Call`, `Block.calls`, what the writer is told for a block, and `writeFile_eq_runBlocks`, by which
  the whole run is what it is told for the blocks of the file;
* `Block.adds`, what a block adds to the state of the writer, and `generate_eq_intercalate`, by which
  the output is the layout.
-/

namespace ProtoDecl.TypeScript

open Schema

/-! ## Blocks -/

/-- What stands between two empty lines of the output, or is indented as a whole. -/
inductive Block where
  /-- At least one line. -/
  | lines (first : String) (rest : List String)
  /-- A header, and lines between braces. -/
  | scope (header : String) (texts : List String)
  /-- A header, and blocks between braces. -/
  | space (header : String) (inner : List Block)

/-- A line at a depth, each level of which takes `n` blanks. -/
def lineAt (n d : Nat) (text : String) : String :=
  String.ofList (List.replicate (d * n) ' ') ++ text ++ "\n"

theorem lineAt_zero (n : Nat) (text : String) : lineAt n 0 text = text ++ "\n" := by
  rw [lineAt, Nat.zero_mul, List.replicate_zero]
  exact congrArg (· ++ "\n") String.empty_append

/-- Lines at a depth. -/
def linesAt (n d : Nat) (texts : List String) : String :=
  String.join (texts.map (lineAt n d))

mutual

/-- A block at a depth, each level of which takes `n` blanks. -/
def Block.render (n d : Nat) : Block → String
  | .lines first rest => linesAt n d (first :: rest)
  | .scope header texts =>
    if texts.isEmpty then lineAt n d (header ++ " \x7b\x7d")
    else lineAt n d (header ++ " \x7b") ++ linesAt n (d + 1) texts ++ lineAt n d "\x7d"
  | .space header inner =>
    lineAt n d (header ++ " \x7b") ++ "\n".intercalate (renderAll n (d + 1) inner)
      ++ lineAt n d "\x7d"

/-- Blocks at a depth. -/
def renderAll (n d : Nat) : List Block → List String
  | [] => []
  | b :: rest => b.render n d :: renderAll n d rest

end

theorem renderAll_eq (n d : Nat) (bs : List Block) : renderAll n d bs = bs.map (Block.render n d) := by
  induction bs with
  | nil => rw [renderAll, List.map_nil]
  | cons b bs ih => rw [renderAll, List.map_cons, ih]

/-- Induction over a block and the blocks inside it. -/
theorem Block.induction {P : Block → Prop} (lines : ∀ first rest, P (.lines first rest))
    (scope : ∀ header texts, P (.scope header texts))
    (space : ∀ header inner, (∀ b ∈ inner, P b) → P (.space header inner)) (b : Block) : P b :=
  match b with
  | .lines first rest => lines first rest
  | .scope header texts => scope header texts
  | .space header inner => space header inner fun b _ => Block.induction lines scope space b

/-! ## The blocks of a file -/

/-- The imports, which together are one block. -/
def importBlocks (resolve : String → String) (imports : List Import) : List Block :=
  match importLines resolve imports with
  | [] => []
  | first :: rest => [.lines first rest]

/-- An enum. -/
def enumBlock (e : EnumDecl) : Block :=
  .scope ("export enum " ++ e.name.text) (e.values.map enumLine)

/-- The line of a member: its name, with a question mark if it may be missing, its type, and
brackets if there may be several. -/
def memberLine (mem : Member) : String :=
  mem.name ++ (if mem.isOptional then "?" else "") ++ ": " ++ mem.type
    ++ (if mem.isArray then "[]" else "") ++ ";"

/-- Members are written on such lines. -/
theorem line_eq_memberLine : Member.line = memberLine :=
  rfl

/-- An extension. -/
def extendBlock (e : Extend) : Block :=
  .scope ("export interface " ++ lastSegment e.extendee.text) ((extendMembers e).map memberLine)

/-- A service. -/
def serviceBlock (s : Service) : Block :=
  .scope ("export interface " ++ s.name.text) (s.methods.map methodLine)

/-- The interface of a message. -/
def interfaceBlock (m : Message) : Block :=
  .scope ("export interface " ++ m.name.text) ((members m).map memberLine)

mutual

/-- A message: its interface, and a namespace if it declares anything in its scope. -/
def messageBlocks : Message → List Block
  | m@⟨_, _, _, _, messages, _, _, _, _, _⟩ =>
    interfaceBlock m ::
      if m.hasNested then
        [.space ("export namespace " ++ m.name.text)
          (m.enums.map enumBlock ++ messagesBlocks messages ++ m.extendBlocks.map extendBlock)]
      else []

/-- Several messages. -/
def messagesBlocks : List Message → List Block
  | [] => []
  | m :: rest => messageBlocks m ++ messagesBlocks rest

end

/-- A whole file. -/
def fileBlocks (resolve : String → String) (f : File) : List Block :=
  importBlocks resolve f.imports ++ f.enums.map enumBlock ++ messagesBlocks f.messages
    ++ f.extendBlocks.map extendBlock ++ f.services.map serviceBlock

/-! ## Calls of the writer -/

/-- What the writer can be told. -/
inductive Call where
  | begin
  | line (text : String)
  | enter (header : String)
  | leave
deriving DecidableEq

/-- What a call does. -/
def Call.run (w : Writer) : Call → Writer
  | begin => w.beginDeclaration
  | line text => w.line text
  | enter header => w.openScope header
  | leave => w.closeScope

mutual

/-- What the writer is told for a block. -/
def Block.calls : Block → List Call
  | .lines first rest => .begin :: (first :: rest).map .line
  | .scope header texts =>
    .begin ::
      if texts.isEmpty then [.line (header ++ " \x7b\x7d")]
      else .enter header :: texts.map .line ++ [.leave]
  | .space header inner => .begin :: .enter header :: callsAll inner ++ [.leave]

/-- What the writer is told for several blocks. -/
def callsAll : List Block → List Call
  | [] => []
  | b :: rest => b.calls ++ callsAll rest

end

theorem callsAll_eq (bs : List Block) : callsAll bs = bs.flatMap Block.calls := by
  induction bs with
  | nil => rw [callsAll, List.flatMap_nil]
  | cons b bs ih => rw [callsAll, List.flatMap_cons, ih]

/-- Runs what the writer is told for some blocks. -/
def Writer.runBlocks (w : Writer) (bs : List Block) : Writer :=
  (bs.flatMap Block.calls).foldl Call.run w

namespace Writer

theorem runBlocks_append (w : Writer) (a b : List Block) :
    w.runBlocks (a ++ b) = (w.runBlocks a).runBlocks b := by
  rw [runBlocks, List.flatMap_append, List.foldl_append]
  rfl

theorem runBlocks_cons (w : Writer) (b : Block) (bs : List Block) :
    w.runBlocks (b :: bs) = (w.runBlocks [b]).runBlocks bs :=
  runBlocks_append w [b] bs

theorem foldl_line (texts : List String) (w : Writer) :
    (texts.map Call.line).foldl Call.run w = w.lines texts :=
  List.foldl_map

/-- A declaration is a block of its lines. -/
theorem declaration_eq_runBlocks (w : Writer) (header : String) (texts : List String) :
    w.declaration header texts = w.runBlocks [.scope header texts] := by
  rw [declaration, runBlocks, List.flatMap_singleton, Block.calls, List.foldl_cons]
  split
  · rfl
  · rw [List.cons_append, List.foldl_cons, List.foldl_append, foldl_line]
    rfl

/-- A namespace is a block of the blocks inside it. -/
theorem runBlocks_space (w : Writer) (header : String) (inner : List Block) :
    w.runBlocks [.space header inner] =
      ((w.beginDeclaration.openScope header).runBlocks inner).closeScope := by
  rw [runBlocks, List.flatMap_singleton, Block.calls, callsAll_eq, List.cons_append, List.cons_append,
    List.foldl_cons, List.foldl_cons, List.foldl_append]
  rfl

/-- What is written in turn is written block after block. -/
theorem foldl_eq_runBlocks {α : Type} {write : Writer → α → Writer} {blocks : α → List Block}
    {as : List α} (h : ∀ a ∈ as, ∀ w, write w a = w.runBlocks (blocks a)) (w : Writer) :
    as.foldl write w = w.runBlocks (as.flatMap blocks) := by
  induction as generalizing w with
  | nil => rfl
  | cons a as ih =>
    rw [List.foldl_cons, List.flatMap_cons, runBlocks_append, ← h a List.mem_cons_self,
      ih fun a' ha' => h a' (List.mem_cons_of_mem _ ha')]

/-- Declarations of one sort are written in turn. -/
theorem foldl_eq_runBlocks_map {α : Type} {write : Writer → α → Writer} {block : α → Block}
    (h : ∀ w a, write w a = w.runBlocks [block a]) (as : List α) (w : Writer) :
    as.foldl write w = w.runBlocks (as.map block) := by
  rw [foldl_eq_runBlocks (fun a _ w => h w a), List.map_eq_flatMap]

end Writer

open Writer

theorem foldl_writeEnum (es : List EnumDecl) (w : Writer) :
    es.foldl writeEnum w = w.runBlocks (es.map enumBlock) := by
  refine foldl_eq_runBlocks_map (fun w e => ?_) es w
  exact declaration_eq_runBlocks w _ _

theorem foldl_writeExtend (es : List Extend) (w : Writer) :
    es.foldl writeExtend w = w.runBlocks (es.map extendBlock) := by
  refine foldl_eq_runBlocks_map (fun w e => ?_) es w
  rw [writeExtend, line_eq_memberLine]
  exact declaration_eq_runBlocks w _ _

theorem foldl_writeService (ss : List Service) (w : Writer) :
    ss.foldl writeService w = w.runBlocks (ss.map serviceBlock) := by
  refine foldl_eq_runBlocks_map (fun w s => ?_) ss w
  exact declaration_eq_runBlocks w _ _

/-! ## Messages -/

theorem writeMessages_eq (ms : List Message) (w : Writer) :
    writeMessages w ms = ms.foldl writeMessage w := by
  induction ms generalizing w with
  | nil => rw [writeMessages, List.foldl_nil]
  | cons m ms ih => rw [writeMessages, List.foldl_cons, ih]

theorem writeMessage_eq (m : Message) (w : Writer) :
    writeMessage w m =
      if m.hasNested then
        (m.extendBlocks.foldl writeExtend
          (m.messages.foldl writeMessage
            (m.enums.foldl writeEnum ((writeInterface w m).beginDeclaration.openScope
              ("export namespace " ++ m.name.text))))).closeScope
      else writeInterface w m := by
  rw [← writeMessages_eq]
  cases m
  rw [writeMessage]

theorem messagesBlocks_eq (ms : List Message) : messagesBlocks ms = ms.flatMap messageBlocks := by
  induction ms with
  | nil => rw [messagesBlocks, List.flatMap_nil]
  | cons m ms ih => rw [messagesBlocks, List.flatMap_cons, ih]

/-- The blocks in the namespace of a message. -/
def innerBlocks (m : Message) : List Block :=
  m.enums.map enumBlock ++ m.messages.flatMap messageBlocks ++ m.extendBlocks.map extendBlock

theorem messageBlocks_eq (m : Message) :
    messageBlocks m =
      interfaceBlock m ::
        if m.hasNested then [.space ("export namespace " ++ m.name.text) (innerBlocks m)] else [] := by
  rw [innerBlocks, ← messagesBlocks_eq]
  cases m
  rw [messageBlocks]

/-- A message is written block after block. -/
theorem writeMessage_eq_runBlocks (m : Message) (w : Writer) :
    writeMessage w m = w.runBlocks (messageBlocks m) := by
  induction m using Message.induction generalizing w with
  | step m ih =>
    have hinterface : writeInterface w m = w.runBlocks [interfaceBlock m] := by
      rw [writeInterface, line_eq_memberLine]
      exact declaration_eq_runBlocks w _ _
    rw [writeMessage_eq, messageBlocks_eq]
    split
    · rw [runBlocks_cons, runBlocks_space, innerBlocks, runBlocks_append, runBlocks_append,
        foldl_writeEnum, foldl_eq_runBlocks ih, foldl_writeExtend, hinterface]
    · exact hinterface

theorem length_aliases (taken : List String) (imports : List Import) :
    (aliases taken imports).length = imports.length := by
  induction imports generalizing taken with
  | nil => rfl
  | cons i imports ih =>
    rw [aliases]
    split <;> simp [ih]

theorem length_importLines (resolve : String → String) (imports : List Import) :
    (importLines resolve imports).length = imports.length := by
  rw [importLines, List.length_zipWith, length_aliases, Nat.min_self]

theorem importLines_eq_nil_iff (resolve : String → String) {imports : List Import} :
    importLines resolve imports = [] ↔ imports = [] := by
  rw [← List.length_eq_zero_iff, length_importLines, List.length_eq_zero_iff]

theorem writeImports_eq_runBlocks (resolve : String → String) (imports : List Import) (w : Writer) :
    writeImports resolve imports w = w.runBlocks (importBlocks resolve imports) := by
  rw [writeImports, importBlocks]
  split
  · rename_i hempty
    rw [(importLines_eq_nil_iff resolve).2 (List.isEmpty_iff.1 hempty)]
    rfl
  · rename_i hne
    split
    · rename_i hlines
      exact absurd (List.isEmpty_iff.2 ((importLines_eq_nil_iff resolve).1 hlines)) hne
    · rename_i first rest hlines
      rw [hlines, runBlocks, List.flatMap_singleton, Block.calls, List.foldl_cons, foldl_line]
      rfl

/-- A file is written block after block. -/
theorem writeFile_eq_runBlocks (o : Options) (f : File) :
    writeFile o f = (Writer.empty o.indentSize).runBlocks (fileBlocks o.resolve f) := by
  rw [writeFile, fileBlocks, writeMessages_eq, messagesBlocks_eq, writeImports_eq_runBlocks,
    foldl_writeEnum, foldl_eq_runBlocks fun m _ => writeMessage_eq_runBlocks m, foldl_writeExtend,
    foldl_writeService, runBlocks_append, runBlocks_append, runBlocks_append, runBlocks_append]

/-! ## What a block adds -/

/-- The writer puts as many blanks before a line as its depth asks for. -/
theorem Writer.line_eq (text : String) (n : Nat) (out : String) (d : Nat) (started : List Bool) :
    (⟨n, out, d, started⟩ : Writer).line text = ⟨n, out ++ lineAt n d text, d, started⟩ := by
  rw [Writer.line, Writer.margin, lineAt, String.append_assoc, String.append_assoc,
    String.append_assoc]

theorem Writer.lines_eq (texts : List String) (n : Nat) (out : String) (d : Nat)
    (started : List Bool) :
    (⟨n, out, d, started⟩ : Writer).lines texts = ⟨n, out ++ linesAt n d texts, d, started⟩ := by
  induction texts generalizing out with
  | nil => simp [Writer.lines, linesAt]
  | cons text texts ih =>
    rw [Writer.lines, List.foldl_cons, ← Writer.lines, Writer.line_eq, ih]
    simp [linesAt, String.append_assoc]

/-- Whether a block adds its text to a scope, after an empty line if the scope holds a declaration
already, and leaves the depth as it was. -/
def Block.Adds (b : Block) : Prop :=
  ∀ n out d isStarted outer, (⟨n, out, d, isStarted :: outer⟩ : Writer).runBlocks [b] =
    ⟨n, out ++ (if isStarted then "\n" else "") ++ b.render n d, d, true :: outer⟩

section Runs

variable {n d : Nat} {out : String} {outer : List Bool} {bs : List Block}

/-- Behind a declaration, every block comes after an empty line. -/
theorem runBlocks_started (h : ∀ b ∈ bs, b.Adds) :
    (⟨n, out, d, true :: outer⟩ : Writer).runBlocks bs =
      ⟨n, out ++ String.join (bs.map fun b => "\n" ++ b.render n d), d, true :: outer⟩ := by
  induction bs generalizing out with
  | nil => simp [runBlocks]
  | cons b bs ih =>
    have hb := h b List.mem_cons_self n out d true outer
    rw [runBlocks_cons, hb, if_pos rfl, ih fun b' hb' => h b' (List.mem_cons_of_mem _ hb')]
    simp [String.append_assoc]

theorem append_join_eq_intercalate (text : String) (texts : List String) :
    text ++ String.join (texts.map ("\n" ++ ·)) = "\n".intercalate (text :: texts) := by
  induction texts generalizing text with
  | nil => simp
  | cons t ts ih => simp [String.append_assoc, ← ih]

/-- In a scope that holds nothing, blocks are joined by an empty line. -/
theorem runBlocks_fresh (h : ∀ b ∈ bs, b.Adds) :
    (⟨n, out, d, false :: outer⟩ : Writer).runBlocks bs =
      ⟨n, out ++ "\n".intercalate (bs.map (Block.render n d)), d, (!bs.isEmpty) :: outer⟩ := by
  cases bs with
  | nil => simp [runBlocks]
  | cons b bs =>
    have hb := h b List.mem_cons_self n out d false outer
    have hjoin := append_join_eq_intercalate (b.render n d) (bs.map (Block.render n d))
    rw [List.map_map] at hjoin
    rw [runBlocks_cons, hb, if_neg (by decide),
      runBlocks_started fun b' hb' => h b' (List.mem_cons_of_mem b hb'), List.map_cons, ← hjoin,
      String.append_empty, String.append_assoc]
    rfl

end Runs

theorem adds_lines (first : String) (rest : List String) : (Block.lines first rest).Adds := by
  intro n out d isStarted outer
  rw [runBlocks, List.flatMap_singleton, Block.calls, List.foldl_cons, foldl_line, Block.render]
  exact lines_eq _ _ _ _ _

theorem adds_scope (header : String) (texts : List String) : (Block.scope header texts).Adds := by
  intro n out d isStarted outer
  rw [← declaration_eq_runBlocks, declaration, Block.render]
  split
  · simp [beginDeclaration, line_eq]
  · simp [beginDeclaration, openScope, closeScope, line_eq, lines_eq, String.append_assoc]

theorem adds_space {header : String} {inner : List Block} (h : ∀ b ∈ inner, b.Adds) :
    (Block.space header inner).Adds := by
  intro n out d isStarted outer
  rw [runBlocks_space, Block.render, renderAll_eq]
  simp [beginDeclaration, openScope, closeScope, line_eq, runBlocks_fresh h, String.append_assoc]

/-- Every block adds its text. -/
theorem Block.adds (b : Block) : b.Adds :=
  Block.induction adds_lines adds_scope (fun _ _ h => adds_space h) b

/-- The output is the blocks of the file, joined by empty lines. -/
theorem generate_eq_intercalate (f : File) (o : Options) :
    generate f o =
      "\n".intercalate ((fileBlocks o.resolve f).map (Block.render o.indentSize 0)) := by
  rw [generate, writeFile_eq_runBlocks, Writer.empty, runBlocks_fresh fun b _ => b.adds]
  exact String.empty_append

end ProtoDecl.TypeScript
