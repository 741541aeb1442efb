import ProtoDecl.Schema.Node

/-!
# Trees that lie in the text as they should

A tree is `Placed` if every node lies within its parent, and every list of a node is in the order of
the text.  Nodes are taken apart by the roles of their children (`Node.parts`): each list is a part,
and so is each single child.

* `Laid lo hi part`: the nodes of a part are placed trees, not empty, in order and between two
  offsets;
* `Placed.mem_walkFrom`: every node met on a walk through a placed tree is where it should be.
-/

namespace ProtoDecl.Schema

namespace Node

/-- The children of a node by their roles: lists as they are, and single children as lists of
one. -/
def parts : Node → List (List Node)
  | name _ | text _ | number _ | flag _ | fieldLabel _ => []
  | option n => [[name n.name], (n.value.map ofConstant).toList]
  | range n => [[number n.first], [ofRangeEnd n.last]]
  | reserved n => [n.items.map ofReservedItem]
  | field n =>
    [(n.label.map fieldLabel).toList, [fieldType n.type], [name n.name], [number n.number],
      n.options.map option]
  | fieldType n => [[name n.name], n.arguments.map fieldType]
  | oneof n => [[name n.name], n.options.map option, n.fields.map field]
  | enumValue n => [[name n.name], [number n.number], n.options.map option]
  | enum n =>
    [[name n.name], n.options.map option, n.values.map enumValue, n.reserved.map reserved]
  | extensions n => [n.ranges.map ofExtensionRange, n.options.map option]
  | extend n => [[name n.extendee], n.fields.map field]
  | message n =>
    [[name n.name], n.options.map option, n.fields.map field, n.oneofs.map oneof,
      n.enums.map enum, n.messages.map message, n.extendBlocks.map extend,
      n.reserved.map reserved, (n.extensions.map extensions).toList]
  | method n => [[name n.name], [name n.request], [name n.response], n.options.map option]
  | service n => [[name n.name], n.options.map option, n.methods.map method]
  | importDecl n => [[text n.path]]
  | package n => [[name n.name]]
  | edition n => [[text n.version]]
  | file n =>
    [(n.edition.map edition).toList, (n.package.map package).toList, n.imports.map importDecl,
      n.options.map option, n.enums.map enum, n.messages.map message, n.services.map service,
      n.extendBlocks.map extend]

/-- The parts of a node are all its children, in their order. -/
theorem flatten_parts (n : Node) : n.parts.flatten = n.children := by
  cases n <;> simp [parts, children]

theorem mem_children_iff {n child : Node} :
    child ∈ n.children ↔ ∃ part ∈ n.parts, child ∈ part := by
  rw [← flatten_parts, List.mem_flatten]

/-- Everything that a node directly owns satisfies `T`. -/
def Owns (T : Node → Prop) (n : Node) : Prop :=
  ∀ part ∈ n.parts, ∀ child ∈ part, T child

section
variable {T : Node → Prop} {n n' : Node} {new : List Node}

/-- A node of which one part has got further nodes. -/
theorem Owns.grow (h : n.Owns T) (hnew : ∀ child ∈ new, T child)
    (hparts : ∀ q ∈ n'.parts, q ∈ n.parts ∨ ∃ part ∈ n.parts, q = part ++ new) : n'.Owns T := by
  intro q hq child hchild
  rcases hparts q hq with hq | ⟨part, hpart, rfl⟩
  · exact h q hq child hchild
  · rcases List.mem_append.1 hchild with hchild | hchild
    · exact h part hpart child hchild
    · exact hnew child hchild

/-- A node of which one part has been replaced. -/
theorem Owns.replace (h : n.Owns T) (hnew : ∀ child ∈ new, T child)
    (hparts : ∀ q ∈ n'.parts, q ∈ n.parts ∨ q = new) : n'.Owns T := by
  intro q hq
  rcases hparts q hq with hq | rfl
  · exact h q hq
  · exact hnew

end

end Node

/-- Nodes that are not empty, between two offsets and in the order of the text. -/
structure Tiled (lo hi : Nat) (part : List Node) : Prop where
  within : ∀ n ∈ part, lo ≤ n.span.start ∧ n.span.start < n.span.stop ∧ n.span.stop ≤ hi
  ordered : part.Pairwise fun a b => a.span.stop ≤ b.span.start

/-- Every part of the node, and of the nodes under it, is in order and within its owner. -/
inductive Placed : Node → Prop
  | mk {n : Node} (tiled : ∀ part ∈ n.parts, Tiled n.span.start n.span.stop part)
      (placed : ∀ part ∈ n.parts, ∀ child ∈ part, Placed child) : Placed n

/-- Placed trees, in order and between two offsets. -/
structure Laid (lo hi : Nat) (part : List Node) : Prop where
  tiled : Tiled lo hi part
  placed : ∀ n ∈ part, Placed n

theorem Placed.laid {n : Node} (h : Placed n) {part : List Node} (hpart : part ∈ n.parts) :
    Laid n.span.start n.span.stop part := by
  obtain ⟨tiled, placed⟩ := h
  exact ⟨tiled part hpart, placed part hpart⟩

theorem placed_of_laid {n : Node}
    (h : ∀ part ∈ n.parts, Laid n.span.start n.span.stop part) : Placed n :=
  ⟨fun part hpart => (h part hpart).tiled, fun part hpart => (h part hpart).placed⟩

namespace Laid

variable {lo hi lo' hi' : Nat} {a b : List Node} {n : Node}

theorem nil : Laid lo hi [] :=
  ⟨⟨by simp, .nil⟩, by simp⟩

theorem mono (h : Laid lo hi a) (hlo : lo' ≤ lo) (hhi : hi ≤ hi') : Laid lo' hi' a := by
  refine ⟨⟨fun n hn => ?_, h.tiled.ordered⟩, h.placed⟩
  obtain ⟨hstart, hlt, hstop⟩ := h.tiled.within n hn
  exact ⟨Nat.le_trans hlo hstart, hlt, Nat.le_trans hstop hhi⟩

/-- One part and another behind it. -/
theorem append (ha : Laid lo hi a) (hb : Laid lo' hi' b) (hbehind : hi ≤ lo') (hlo : lo ≤ lo')
    (hhi : hi ≤ hi') : Laid lo hi' (a ++ b) := by
  have ha' := ha.mono (Nat.le_refl lo) hhi
  have hb' := hb.mono hlo (Nat.le_refl hi')
  refine ⟨⟨fun n hn => ?_, List.pairwise_append.2 ⟨ha.tiled.ordered, hb.tiled.ordered, ?_⟩⟩,
    fun n hn => ?_⟩
  · exact (List.mem_append.1 hn).elim (ha'.tiled.within n) (hb'.tiled.within n)
  · intro n hn m hm
    have hn := (ha.tiled.within n hn).2.2
    have hm := (hb.tiled.within m hm).1
    omega
  · exact (List.mem_append.1 hn).elim (ha.placed n) (hb.placed n)

/-- A single node whose parts are laid within it. -/
theorem single (hlo : lo ≤ n.span.start) (hlt : n.span.start < n.span.stop)
    (hhi : n.span.stop ≤ hi) (hparts : ∀ part ∈ n.parts, Laid n.span.start n.span.stop part) :
    Laid lo hi [n] := by
  refine ⟨⟨fun m hm => ?_, List.pairwise_singleton _ _⟩, fun m hm => ?_⟩
  · rw [List.mem_singleton.1 hm]
    exact ⟨hlo, hlt, hhi⟩
  · rw [List.mem_singleton.1 hm]
    exact placed_of_laid hparts

theorem le_of_ne_nil (h : Laid lo hi a) (hne : a ≠ []) : lo < hi := by
  obtain ⟨n, rest, rfl⟩ := List.exists_cons_of_ne_nil hne
  obtain ⟨hstart, hlt, hstop⟩ := h.tiled.within n List.mem_cons_self
  omega

end Laid

/-! ## Walks -/

/-- What is said of a node that is met on a walk. -/
structure Node.Visit.Sound (v : Node.Visit) : Prop where
  start_le_stop : v.node.span.start ≤ v.node.span.stop
  contained : ∀ parent ∈ v.parent, parent.span.contains v.node.span = true
  ordered : ∀ part ∈ v.node.parts, part.Pairwise fun a b => a.span.stop ≤ b.span.start

theorem Placed.mem_walkFrom {parent : Option Node} {n : Node} (h : Placed n)
    (hle : n.span.start ≤ n.span.stop)
    (hparent : ∀ p ∈ parent, p.span.contains n.span = true) :
    ∀ v ∈ Node.walkFrom parent n, v.Sound := by
  fun_induction Node.walkFrom parent n with
  | case1 parent n ih =>
    intro v hv
    rcases List.mem_cons.1 hv with rfl | hv
    · exact ⟨hle, hparent, fun part hpart => (h.laid hpart).tiled.ordered⟩
    · obtain ⟨⟨child, hchild⟩, -, hv⟩ := List.mem_flatMap.1 hv
      obtain ⟨part, hpart, hmem⟩ := Node.mem_children_iff.1 hchild
      have hlaid := h.laid hpart
      obtain ⟨hstart, hlt, hstop⟩ := hlaid.tiled.within child hmem
      refine ih ⟨child, hchild⟩ (hlaid.placed child hmem) (Nat.le_of_lt hlt) ?_ v hv
      rintro p hp
      obtain rfl := Option.mem_some_iff.1 hp
      simp [Span.contains, hstart, hstop]

end ProtoDecl.Schema
