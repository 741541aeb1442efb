import ProtoDecl.Proofs.Errors
import ProtoDecl.Proofs.Reading.Keeps
import ProtoDecl.Proofs.WellFormed.Words

/-!
# Well-formed trees

What may be relied on in the tree of any source, however faulty (`Node.Formed`): declarations are
named by words and types by dotted names, numbers of fields and of enum values are integers, and
only maps have arguments.  That options have values and lists have items can only be said where no
error was reported, so the errors of the whole reading are a parameter.

`Shaped` says so of a node and all the nodes under it, and hence of every node met on a walk
(`Shaped.mem_walkFrom`).

`Forms errors c p P` says that what `p` yields from `c` on satisfies `P`, if all tokens left to read
are worded and `errors` are all that is reported in the end.
-/

namespace ProtoDecl.Schema

variable {errors : List SyntaxError}

/-! ## Nodes -/

namespace Name

/-- Whether the name is a single word. -/
def isWord (n : Name) : Bool :=
  Text.isWord n.text.toList

/-- Whether the name consists of words with dots between them. -/
def isDotted (n : Name) : Bool :=
  Text.isDotted n.text.toList

/-- Whether the name is dotted, possibly with a leading dot. -/
def isQualified (n : Name) : Bool :=
  Text.isQualified n.text.toList

end Name

/-- Whether a node by itself is as it should be, where `errors` were reported. -/
def Node.Formed (errors : List SyntaxError) : Node → Prop
  | .message m => m.name.isWord
  | .enum e => e.name.isWord
  | .service s => s.name.isWord
  | .oneof o => o.name.isWord
  | .field f => f.name.isWord ∧ f.number.integer?.isSome
  | .enumValue v => v.name.isWord ∧ v.number.integer?.isSome
  | .method m => m.name.isWord ∧ m.request.isQualified ∧ m.response.isQualified
  | .extend e => e.extendee.isQualified
  | .fieldType t =>
    t.name.isQualified ∧ (t.arguments = [] ∨ t.name.text = "map" ∧ t.arguments.length = 2)
  | .package p => p.name.isDotted
  | .range r => ∀ word, r.last = .max word → word.text = "max"
  | .option o => errors = [] → o.value.isSome
  | .reserved r => errors = [] → r.items ≠ []
  | .extensions e => errors = [] → e.ranges ≠ []
  | .name _ | .text _ | .number _ | .flag _ | .fieldLabel _ => True
  | .importDecl _ | .edition _ | .file _ => True

/-- The node and all the nodes under it are formed. -/
inductive Shaped (errors : List SyntaxError) : Node → Prop
  | mk {n : Node} (formed : n.Formed errors)
      (shaped : ∀ part ∈ n.parts, ∀ child ∈ part, Shaped errors child) : Shaped errors n

namespace Shaped

variable {n n' : Node}

theorem formed (h : Shaped errors n) : n.Formed errors := by
  obtain ⟨hformed, -⟩ := h
  exact hformed

theorem child (h : Shaped errors n) {part : List Node} (hpart : part ∈ n.parts) :
    ∀ child ∈ part, Shaped errors child := by
  obtain ⟨-, hshaped⟩ := h
  exact hshaped part hpart

/-- A node without parts. -/
theorem leaf (hformed : n.Formed errors) (hparts : n.parts = []) : Shaped errors n :=
  ⟨hformed, by simp [hparts]⟩

/-- A node of which one part has got further nodes. -/
theorem grow (h : Shaped errors n) {new : List Node} (hnew : ∀ child ∈ new, Shaped errors child)
    (hformed : n'.Formed errors)
    (hparts : ∀ q ∈ n'.parts, q ∈ n.parts ∨ ∃ part ∈ n.parts, q = part ++ new) :
    Shaped errors n' :=
  ⟨hformed, Node.Owns.grow (fun _ => h.child) hnew hparts⟩

/-- A node of which one part has been replaced. -/
theorem replace (h : Shaped errors n) {new : List Node} (hnew : ∀ child ∈ new, Shaped errors child)
    (hformed : n'.Formed errors) (hparts : ∀ q ∈ n'.parts, q ∈ n.parts ∨ q = new) :
    Shaped errors n' :=
  ⟨hformed, Node.Owns.replace (fun _ => h.child) hnew hparts⟩

/-- Every node met on a walk is formed. -/
theorem mem_walkFrom {parent : Option Node} (h : Shaped errors n) :
    ∀ v ∈ Node.walkFrom parent n, v.node.Formed errors := by
  fun_induction Node.walkFrom parent n with
  | case1 parent n ih =>
    intro v hv
    rcases List.mem_cons.1 hv with rfl | hv
    · exact h.formed
    · obtain ⟨⟨child, hchild⟩, -, hv⟩ := List.mem_flatMap.1 hv
      obtain ⟨part, hpart, hmem⟩ := Node.mem_children_iff.1 hchild
      exact ih ⟨child, hchild⟩ (h.child hpart child hmem) v hv

end Shaped

@[simp] theorem shaped_name (n : Name) : Shaped errors (.name n) :=
  .leaf trivial rfl

@[simp] theorem shaped_text (t : TextLit) : Shaped errors (.text t) :=
  .leaf trivial rfl

@[simp] theorem shaped_number (n : NumberLit) : Shaped errors (.number n) :=
  .leaf trivial rfl

@[simp] theorem shaped_fieldLabel (l : FieldLabel) : Shaped errors (.fieldLabel l) :=
  .leaf trivial rfl

@[simp] theorem shaped_ofConstant (c : Constant) : Shaped errors (.ofConstant c) := by
  cases c <;> exact .leaf trivial rfl

@[simp] theorem shaped_ofRangeEnd (e : RangeEnd) : Shaped errors (.ofRangeEnd e) := by
  cases e <;> exact .leaf trivial rfl

/-! ## Tokens left to read -/

namespace Cursor

variable {c d : Cursor}

/-- Whether all tokens left to read are worded. -/
def Worded (c : Cursor) : Prop :=
  ∀ t ∈ c.view, t.Worded

theorem Worded.leads (h : c.Worded) (hleads : c.Leads d) : d.Worded :=
  fun t ht => h t (hleads.view_suffix.subset ht)

theorem Worded.word (h : c.Worded) (hname : c.current.kind.isName = true) :
    Text.isWord c.current.value.toList = true :=
  (h _ (current_mem_of_kind (Parser.ne_endOfFile_of_isName hname))).word hname

theorem Worded.wordOf (h : c.Worded) {k : Keyword} (hk : c.current.kind = .keyword k) :
    (Parser.wordOf c.current).text = k.spelling := by
  have hmem : c.current ∈ c.view := current_mem_of_kind (by simp [hk])
  change String.ofList (c.current.value.toList.map Char.toLower) = k.spelling
  rw [(h _ hmem).spelling k hk, String.ofList_toList]

theorem worded_ofTokens {tokens : List Token} (h : ∀ t ∈ tokens, t.Worded) :
    (ofTokens tokens).Worded := by
  intro t ht
  rw [view_ofTokens] at ht
  exact h t ((List.takeWhile_prefix _).subset (List.mem_filter.1 ht).1)

end Cursor

/-- All tokens left to read are worded, at this cursor and further on. -/
def worded : Lasting :=
  ⟨Cursor.Worded, Cursor.Worded.leads⟩

namespace Parser

/-- Whatever `p` yields from `c` on satisfies `P`, if `errors` are all that is reported in the
end. -/
def Forms {α : Type} (errors : List SyntaxError) (c : Cursor) (p : Parser α) (P : α → Prop) :
    Prop :=
  Keeps worded errors c p P

theorem forms_name {c : Cursor} {subject : String} :
    Forms errors c (Parser.name subject) fun n => n.isWord := by
  intro hc n d hy _
  obtain ⟨hname, rfl, -⟩ := yields_name.1 hy
  exact Cursor.Worded.word hc hname

end Parser

/-- A statement that adds to a node what it has read. -/
theorem Shaped.added {α σ : Type} {c : Cursor} {p : Parser α} {s : σ} (node : σ → Node)
    {child : α → Node} {k : Option α → σ} (h : Shaped errors (node s))
    (hp : Parser.Forms errors c p fun a => Shaped errors (child a))
    (hformed : ∀ o, (node (k o)).Formed errors)
    (hparts : ∀ o, ∀ q ∈ (node (k o)).parts,
      q ∈ (node s).parts ∨ ∃ part ∈ (node s).parts, q = part ++ o.toList.map child) :
    Parser.Forms errors c (Parser.attempt p >>= fun o => pure (k o))
      fun s' => Shaped errors (node s') := by
  refine .bind hp.attempt fun o _ _ ho => .pure (h.grow ?_ (hformed o) (hparts o))
  intro n hn
  obtain ⟨a, ha, rfl⟩ := List.mem_map.1 hn
  exact ho a (Option.mem_toList.1 ha)

end ProtoDecl.Schema
