import ProtoDecl.Proofs.Grammar.Files
import ProtoDecl.Proofs.Grammar.Words
import ProtoDecl.Proofs.Reading.Keeps

/-!
# What nodes are read from

Every node comes from tokens that stand side by side, and its span is their extent.
`Node.ReadFrom` says how the node and its tokens go together: the text of a name is that of its
tokens, a literal is a token of its own, a declaration with a body ends with its own brace and a
statement with its semicolon.

* Literals and labels are read from such tokens whatever else is wrong with the source; names,
  statements and declarations are where no error was reported (`Node.Covered`).
* `Told` says so of a node and all the nodes under it, and hence of every node met on a walk
  (`Told.mem_walkFrom`).
* `covered_of_parses`: a production that begins at the next token and follows a rule of the grammar
  covers its node, if the words of the rule are as the node says.
-/

namespace ProtoDecl.Schema

variable {tokens w : List Token} {errors : List SyntaxError} {small : Bool}

/-! ## Nodes and tokens -/

namespace Node

/-- Whether words under the node are kept in small letters: the `map` of a type with arguments, and
the `max` of a range. -/
def lowers : Node → Bool
  | .fieldType t => !t.arguments.isEmpty
  | .range _ => true
  | _ => false

/-- How a node goes together with the tokens it is read from.  Names may be kept in small
letters. -/
def ReadFrom (small : Bool) (w : List Token) : Node → Prop
  | .name n => w ≠ [] ∧ (∀ t ∈ w, t.kind.isNamePart = true) ∧
      n.text.toList = if small then (spelling w).map Char.toLower else spelling w
  | .text n => ∃ t, w = [t] ∧ t.kind = .text ∧ t.value = n.value
  | .number n => ∃ t, w = [t] ∧ t.kind = .number ∧ t.value = n.raw
  | .flag n => ∃ t, w = [t] ∧ t.kind = .keyword (if n.value then .trueWord else .falseWord)
  | .fieldLabel l => ∃ t, w = [t] ∧ Parser.labelOf? t.kind = some l.label
  | .message _ => Enclosed .message w
  | .enum _ => Enclosed .enum w
  | .service _ => Enclosed .service w
  | .oneof _ => Enclosed .oneof w
  | .extend _ => Enclosed .extend w
  | .field _ | .enumValue _ | .reserved _ | .edition _ | .package _ | .importDecl _ =>
    ∃ u t, w = u ++ [t] ∧ t.kind = .symbol .semicolon
  | .option _ | .range _ | .fieldType _ | .extensions _ | .method _ | .file _ => True

/-- Where a node has to be read from its tokens: literals and labels always, names, statements and
declarations if no error was reported.  Nothing is said of the other nodes. -/
def Certain (errors : List SyntaxError) : Node → Prop
  | .text _ | .number _ | .flag _ | .fieldLabel _ => True
  | .option _ | .range _ | .fieldType _ | .extensions _ | .method _ | .file _ => False
  | _ => errors = []

theorem ReadFrom.ne_nil {n : Node} (h : n.ReadFrom small w) (hcertain : n.Certain errors) :
    w ≠ [] := by
  have hlast : (∃ u t, w = u ++ [t] ∧ t.kind = .symbol .semicolon) → w ≠ [] := by
    rintro ⟨u, t, rfl, -⟩
    simp
  have hbraces {k : Keyword} : Enclosed k w → w ≠ [] := by
    rintro ⟨⟩
    simp
  cases n with
  | name n => exact h.1
  | text | number | flag | fieldLabel =>
    obtain ⟨t, rfl, -⟩ := h
    simp
  | message | enum | service | oneof | extend => exact hbraces h
  | field | enumValue | reserved | edition | package | importDecl => exact hlast h
  | option | range | fieldType | extensions | method | file => exact hcertain.elim

/-- The node is read from some of the tokens, if it has to be. -/
def Covered (tokens : List Token) (errors : List SyntaxError) (small : Bool) (n : Node) : Prop :=
  n.Certain errors → ∃ w, w <:+: tokens ∧ Extent w n.span ∧ n.ReadFrom small w

end Node

/-- The node and all the nodes under it are covered. -/
inductive Told (tokens : List Token) (errors : List SyntaxError) : Bool → Node → Prop
  | mk {small : Bool} {n : Node} (covered : n.Covered tokens errors small)
      (told : ∀ part ∈ n.parts, ∀ child ∈ part, Told tokens errors n.lowers child) :
      Told tokens errors small n

namespace Told

variable {n : Node}

theorem covered (h : Told tokens errors small n) : n.Covered tokens errors small := by
  obtain ⟨hcovered, -⟩ := h
  exact hcovered

theorem owns (h : Told tokens errors small n) : n.Owns (Told tokens errors n.lowers) := by
  obtain ⟨-, htold⟩ := h
  exact htold

/-- Every node met on a walk is covered. -/
theorem mem_walkFrom (parent : Option Node) (h : Told tokens errors (parent.any Node.lowers) n) :
    ∀ v ∈ Node.walkFrom parent n, v.node.Covered tokens errors (v.parent.any Node.lowers) := by
  fun_induction Node.walkFrom parent n with
  | case1 parent n ih =>
    intro v hv
    rcases List.mem_cons.1 hv with rfl | hv
    · exact h.covered
    · obtain ⟨⟨child, hchild⟩, -, hv⟩ := List.mem_flatMap.1 hv
      obtain ⟨part, hpart, hmem⟩ := Node.mem_children_iff.1 hchild
      exact ih ⟨child, hchild⟩ (h.owns part hpart child hmem) v hv

end Told

/-! ## Reading nodes -/

/-- What is left to read is the end of a list, in which symbols are written as they are. -/
def within (tokens : List Token) : Lasting where
  holds c := c.view <:+ tokens ∧ ∀ t ∈ tokens, t.Marked
  leads h hleads := ⟨hleads.view_suffix.trans h.1, h.2⟩

/-- A node that is read from the next token alone. -/
theorem told_current {c : Cursor} (hc : (within tokens).holds c)
    (hk : c.current.kind ≠ .endOfFile) {n : Node} (hspan : n.span = c.current.span)
    (hparts : n.parts = []) (hread : n.ReadFrom small [c.current]) :
    Told tokens errors small n := by
  have hwithin : [c.current] <:+: c.view := by
    rw [Cursor.view_eq_cons hk]
    exact ⟨[], c.advance.view, rfl⟩
  have hcovered : n.Covered tokens errors small := fun _ =>
    ⟨[c.current], hwithin.trans hc.1.isInfix, extent_singleton_iff.2 hspan, hread⟩
  exact ⟨hcovered, by simp [hparts]⟩

namespace Parser

variable {α σ : Type} {c : Cursor} {p : Parser α} {node : α → Node} {F : Kind → Prop}

/-- Whatever `p` yields from `c` on is a node that is told, if `errors` are all that is reported in
the end. -/
def Tells (tokens : List Token) (errors : List SyntaxError) (c : Cursor) (p : Parser α)
    (node : α → Node) : Prop :=
  Keeps (within tokens) errors c p fun a => Told tokens errors false (node a)

/-- A production that takes the span of all that it reads.  Without errors it reads a word of its
rule. -/
theorem covered_of_parses [Seen α] {r : Rule α} (hp : ParsesAt F c p r)
    (hcertain : ∀ a, (node a).Certain errors → errors = [])
    (hspan : Ensures c p fun a d => (node a).span = d.spanFrom c.current.span)
    (hword : ∀ w a, r w (bare a) → (∀ t ∈ w, t.Marked) → (node a).ReadFrom small w) :
    Keeps (within tokens) errors c p fun a => (node a).Covered tokens errors small := by
  intro hc a d hy hd hcert
  -- Errors are only added, so none was reported on the way either.
  have hend : d.errors = [] := List.subset_nil.1 (hcertain a hcert ▸ hd)
  have hstart : c.errors = [] := List.subset_nil.1 (hend ▸ hy.leads.errors_subset)
  have hread : p.Reads c a d := ⟨hy, hend.trans hstart.symm⟩
  obtain ⟨w, hw, hr⟩ := hp.sound hread
  have hwithin : w <:+: tokens := by
    have hbefore : w <:+: c.view := ⟨[], d.view, hw.symm⟩
    exact hbefore.trans hc.1.isInfix
  have hfrom := hword w a hr fun t ht => hc.2 t (hwithin.subset ht)
  refine ⟨w, hwithin, ?_, hfrom⟩
  rw [hspan a d hy]
  exact hy.leads.extent hw (hfrom.ne_nil hcert)

/-- The names that a rule describes. -/
theorem told_of_parses {p : Parser Name} {r : Rule Name} {P : Kind → Prop} (hp : ParsesAt F c p r)
    (hspan : Ensures c p fun n d => n.span = d.spanFrom c.current.span) (hbegins : r.Begins P)
    (hspelt : ∀ {w n}, r w n → Spelt w n.text.toList) :
    Tells tokens errors c p .name := by
  have hcovered : Keeps (within tokens) errors c p fun n =>
      (Node.name n).Covered tokens errors false := by
    refine covered_of_parses hp (fun _ => id) hspan fun w n hw hmarked => ?_
    obtain ⟨t, v, rfl, -⟩ := hbegins w _ hw
    have hword := hspelt hw
    exact ⟨by simp, hword.parts, hword.text hmarked⟩
  intro hc n d hy hd
  exact ⟨hcovered hc n d hy hd, by simp [Node.parts]⟩

/-- A production whose node is covered, and all that the node owns is told. -/
theorem Tells.of_owns
    (hcovered : Keeps (within tokens) errors c p fun a => (node a).Covered tokens errors false)
    (howns : Keeps (within tokens) errors c p fun a =>
      (node a).Owns (Told tokens errors (node a).lowers)) : Tells tokens errors c p node :=
  fun hc a d hy hd => ⟨hcovered hc a d hy hd, howns hc a d hy hd⟩

/-- A statement or a declaration that follows a rule. -/
theorem Tells.of_parses [Seen α] {r : Rule α} (hp : ParsesAt anything c p r)
    (hcertain : ∀ a, (node a).Certain errors → errors = [])
    (hword : ∀ w a, r w (bare a) → (node a).ReadFrom false w)
    (hspan : Ensures c p fun a d => (node a).span = d.spanFrom c.current.span)
    (howns : Keeps (within tokens) errors c p fun a =>
      (node a).Owns (Told tokens errors (node a).lowers)) : Tells tokens errors c p node :=
  .of_owns (covered_of_parses hp hcertain hspan fun w a hw _ => hword w a hw) howns

end Parser

/-- A statement that adds to a node what it has read. -/
theorem Node.Owns.added {α σ : Type} {c : Cursor} {p : Parser α} {K : Lasting} {T : Node → Prop}
    {s : σ} (node : σ → Node) {child : α → Node} {k : Option α → σ} (h : (node s).Owns T)
    (hp : Parser.Keeps K errors c p fun a => T (child a))
    (hparts : ∀ o, ∀ q ∈ (node (k o)).parts,
      q ∈ (node s).parts ∨ ∃ part ∈ (node s).parts, q = part ++ o.toList.map child) :
    Parser.Keeps K errors c (Parser.attempt p >>= fun o => pure (k o))
      fun s' => (node s').Owns T := by
  refine .bind hp.attempt fun o _ _ ho => .pure (h.grow ?_ (hparts o))
  intro n hn
  obtain ⟨a, ha, rfl⟩ := List.mem_map.1 hn
  exact ho a (Option.mem_toList.1 ha)

end ProtoDecl.Schema
