import ProtoDecl.Proofs.Progress
import ProtoDecl.Proofs.Reading.Keeps

/-!
# Arguments of types

Whatever tokens are read, a field is of a type without arguments or of one with two
(`parse_paired`).  A map that breaks off before its second argument describes no type, and so no
field.  This holds of the fields of all messages, at any depth, and of those in groups of
alternatives.
-/

namespace ProtoDecl.Schema

/-- Whether a type has no arguments, or two. -/
def FieldType.Paired (t : FieldType) : Prop :=
  t.arguments = [] ∨ t.arguments.length = 2

/-- Whether the fields of a message, and of all messages inside it, are of paired types. -/
inductive Message.Paired : Message → Prop
  | intro {m : Message} (fields : ∀ f ∈ m.fields, f.type.Paired)
      (oneofs : ∀ o ∈ m.oneofs, ∀ f ∈ o.fields, f.type.Paired)
      (messages : ∀ m' ∈ m.messages, m'.Paired) : m.Paired

/-- What else a message holds does not matter. -/
theorem Message.Paired.of_eq {m m' : Message} (h : m.Paired) (hfields : m'.fields = m.fields)
    (honeofs : m'.oneofs = m.oneofs) (hmessages : m'.messages = m.messages) : m'.Paired := by
  obtain ⟨fields, oneofs, messages⟩ := h
  exact ⟨hfields ▸ fields, honeofs ▸ oneofs, hmessages ▸ messages⟩

namespace Parser

variable {c : Cursor} {K : Lasting} {errors : List SyntaxError}

theorem keeps_fieldType : Keeps K errors c fieldType FieldType.Paired := by
  refine .recursive fieldTypeWith_local _ fun inner _ c => ?_
  refine .ask (.ask (.ite (fun _ => ?_) fun _ => ?_))
  · refine .next fun _ _ => .next fun _ _ => .next fun key _ => .next fun _ _ => ?_
    exact .next fun value _ => .next fun _ _ => .ask (.pure (.inr rfl))
  · exact .next fun _ _ => .pure (.inl rfl)

theorem keeps_field : Keeps K errors c field fun f => f.type.Paired := by
  refine .ask (.next fun _ _ => .bind keeps_fieldType fun type _ _ htype => ?_)
  refine .next fun _ _ => .next fun _ _ => .next fun _ _ => .next fun _ _ => .next fun _ _ => ?_
  exact .ask (.pure htype)

/-- A list that gets what was read, if anything was. -/
theorem forall_mem_append_toList {α : Type} {P : α → Prop} {xs : List α} {o : Option α}
    (h : ∀ a ∈ xs, P a) (ho : ∀ a ∈ o, P a) : ∀ a ∈ xs ++ o.toList, P a :=
  List.forall_mem_append.2 ⟨h, fun a ha => ho a (Option.mem_toList.1 ha)⟩

theorem keeps_oneofStatement {decl : Oneof} (h : ∀ f ∈ decl.fields, f.type.Paired) :
    Keeps K errors c (oneofStatement decl) fun decl => ∀ f ∈ decl.fields, f.type.Paired := by
  refine .ask (.ite (fun _ => .next fun _ _ => .pure h) fun _ => ?_)
  exact .bind keeps_field.attempt fun o _ _ ho => .pure (forall_mem_append_toList h ho)

theorem keeps_oneof : Keeps K errors c oneof fun o => ∀ f ∈ o.fields, f.type.Paired := by
  refine .next fun _ _ => .next fun name _ => ?_
  refine .bind (.body (fun _ _ h => keeps_oneofStatement h) (by simp)) fun decl _ _ h => ?_
  exact .ask (.pure h)

theorem keeps_messageStatement {inner : Parser Message}
    (hinner : ∀ c, Keeps K errors c inner Message.Paired) {decl : Message} (h : decl.Paired) :
    Keeps K errors c (messageStatement inner decl) Message.Paired := by
  have ⟨fields, oneofs, messages⟩ := h
  refine .ask ?_
  split
  · exact .bind (hinner c).attempt fun o _ _ ho =>
      .pure ⟨fields, oneofs, forall_mem_append_toList messages ho⟩
  · exact .next fun _ _ => .pure (h.of_eq rfl rfl rfl)
  · exact .bind keeps_oneof.attempt fun o _ _ ho =>
      .pure ⟨fields, forall_mem_append_toList oneofs ho, messages⟩
  · exact .next fun _ _ => .pure (h.of_eq rfl rfl rfl)
  · exact .next fun _ _ => .pure (h.of_eq rfl rfl rfl)
  · exact .next fun _ _ => .pure (h.of_eq rfl rfl rfl)
  · exact .next fun _ _ => .pure (h.of_eq rfl rfl rfl)
  · exact .bind keeps_field.attempt fun o _ _ ho =>
      .pure ⟨forall_mem_append_toList fields ho, oneofs, messages⟩

theorem keeps_message : Keeps K errors c message Message.Paired := by
  refine .recursive messageWith_local _ fun inner hinner c => ?_
  have hempty (name : Name) (span : Span) : (emptyMessage name span).Paired := by
    constructor <;> simp [emptyMessage]
  refine .next fun _ _ => .next fun name _ =>
    .bind (.body (fun decl c h => keeps_messageStatement hinner h) (hempty name _))
      fun decl _ _ h => ?_
  exact .ask (.pure (h.of_eq rfl rfl rfl))

/-- A statement of a file adds at most one message. -/
theorem keeps_fileStatement {isFirst : Bool} {file : File} (h : ∀ m ∈ file.messages, m.Paired) :
    Keeps K errors c (fileStatement isFirst file) fun file => ∀ m ∈ file.messages, m.Paired := by
  refine .ask ?_
  split
  · refine .next fun o _ => .ite (fun _ => .pure h) fun _ => ?_
    cases o with
    | some late => exact .next fun _ _ => .pure h
    | none => exact .pure h
  · refine .next fun o _ => ?_
    cases o with
    | some package => exact .ite (fun _ => .next fun _ _ => .pure h) fun _ => .pure h
    | none => exact .pure h
  · exact .next fun _ _ => .pure h
  · exact .next fun _ _ => .pure h
  · exact .next fun _ _ => .pure h
  · exact .bind keeps_message.attempt fun o _ _ ho => .pure (forall_mem_append_toList h ho)
  · exact .next fun _ _ => .pure h
  · exact .next fun _ _ => .pure h
  · exact .next fun _ _ => .pure h
  · exact .next fun _ _ => .next fun _ _ => .pure h

theorem keeps_fileStatements {isFirst : Bool} {file : File}
    (h : ∀ m ∈ file.messages, m.Paired) :
    Keeps K errors c (fileStatements (isFirst, file)) fun s => ∀ m ∈ s.2.messages, m.Paired := by
  refine .loop (I := fun s : Bool × File => ∀ m ∈ s.2.messages, m.Paired) (fun s c h => ?_) h
  refine .ask (.ite (fun _ => .pure h) fun _ => ?_)
  exact .bind (keeps_fileStatement h) fun _ _ _ h => .pure h

end Parser

/-- No condition on cursors at all. -/
def Lasting.always : Lasting where
  holds _ := True
  leads _ _ := trivial

/-- Whatever tokens are read, the messages of the file are paired. -/
theorem parse_paired (tokens : List Token) : ∀ m ∈ (parse tokens).file.messages, m.Paired := by
  obtain ⟨s, d, hrun⟩ := Parser.total_fileStatements (true, {}) (Cursor.ofTokens tokens)
  have hkeeps : Parser.Keeps .always d.errors (Cursor.ofTokens tokens)
      (Parser.fileStatements (true, {})) fun s => ∀ m ∈ s.2.messages, m.Paired :=
    Parser.keeps_fileStatements (by simp)
  unfold parse
  rw [hrun]
  exact hkeeps trivial s d hrun (List.Subset.refl _)

end ProtoDecl.Schema
