import ProtoDecl.Descriptor.Wire

/-!
# Messages inside messages

Messages and their descriptors are nested to any depth.  A fact about all of them is shown for a
message under the assumption that it holds for the messages right inside it; and a function that goes
through them by two recursions, one for a message and one for a list, maps itself over the list.
-/

namespace ProtoDecl

namespace Schema

/-- Induction over a message and the messages inside it. -/
theorem Message.induction {P : Message → Prop} (step : ∀ m, (∀ m' ∈ m.messages, P m') → P m)
    (m : Message) : P m :=
  step m fun m' _ => Message.induction step m'
termination_by m
decreasing_by
  have hlt := List.sizeOf_lt_of_mem ‹m' ∈ m.messages›
  cases m
  dsimp only at hlt
  simp only [Message.mk.sizeOf_spec]
  omega

end Schema

namespace Descriptor

open Schema (Message)
open Wire

/-- Induction over the descriptor of a message and those inside it. -/
theorem MessageDescriptor.induction {P : MessageDescriptor → Prop}
    (step : ∀ m, (∀ m' ∈ m.nested, P m') → P m) (m : MessageDescriptor) : P m :=
  step m fun m' _ => MessageDescriptor.induction step m'
termination_by m
decreasing_by
  have hlt := List.sizeOf_lt_of_mem ‹m' ∈ m.nested›
  cases m
  dsimp only at hlt
  simp only [MessageDescriptor.mk.sizeOf_spec]
  omega

theorem ofMessages_eq (version3 : Bool) (ms : List Message) :
    ofMessages version3 ms = ms.map (ofMessage version3) := by
  induction ms with
  | nil => rw [ofMessages, List.map_nil]
  | cons m ms ih => rw [ofMessages, List.map_cons, ih]

theorem ofMessage_eq (version3 : Bool) (m : Message) :
    ofMessage version3 m =
      { name := m.name.text
        fields := ofPlainFields version3 m.oneofs.length m.fields ++ ofOneofs 0 m.oneofs
        nested := (allFields m).filterMap entryOf? ++ m.messages.map (ofMessage version3)
        enums := m.enums.map ofEnum
        extensionRanges := extensionRanges m.extensions
        extensions := m.extendBlocks.flatMap ofExtend
        oneofs := oneofNames version3 m
        reservedRanges := reservedRanges m.reserved
        reservedNames := reservedNames m.reserved } := by
  rw [← ofMessages_eq]
  cases m
  rw [ofMessage]

theorem wireNested_eq (ms : List MessageDescriptor) :
    wireNested ms = ms.map fun m => message 3 m.wire := by
  induction ms with
  | nil => rw [wireNested, List.map_nil]
  | cons m ms ih => rw [wireNested, List.map_cons, ih]

theorem MessageDescriptor.wire_eq (m : MessageDescriptor) :
    m.wire = [text 1 m.name] ++ m.fields.map (fun f => message 2 f.wire)
      ++ m.nested.map (fun m => message 3 m.wire)
      ++ m.enums.map (fun e => message 4 e.wire)
      ++ m.extensionRanges.map (fun r => message 5 r.wire)
      ++ m.extensions.map (fun f => message 6 f.wire)
      ++ (if m.isMapEntry then [message 7 [flag 7 true]] else [])
      ++ m.oneofs.map (fun name => message 8 [text 1 name])
      ++ m.reservedRanges.map (fun r => message 9 r.wire)
      ++ m.reservedNames.map (text 10) := by
  rw [← wireNested_eq]
  cases m
  rw [wire]

end Descriptor

end ProtoDecl
