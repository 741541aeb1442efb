import ProtoDecl.Proofs.Reading.Logic
import ProtoDecl.Schema.Grammar.Message

/-!
# The two recursions

Types and messages are read by parsers that call themselves: a map has types inside, a message has
messages inside.  Both have read a keyword, and messages a name too, before they do so.  Hence both
steps are local (`fieldTypeWith_local`, `messageWith_local`), and the rules for recursive parsers
apply to them.  Which statement of a message is next is told by the token it opens with
(`opens_classify`).
-/

namespace ProtoDecl.Schema.Parser

variable {c d : Cursor}

/-- A cursor that is not at the end of the file makes progress. -/
theorem remaining_advance_lt_of_kind (h : c.current.kind ≠ .endOfFile) :
    c.advance.remaining < c.remaining := by
  refine (Cursor.remaining_advance_lt_iff c).2 fun hnil => h ?_
  rw [Cursor.current_of_view_nil hnil]
  exact Cursor.eof_kind c

theorem ne_endOfFile_of_isName {k : Kind} (h : k.isName = true) : k ≠ .endOfFile := by
  rintro rfl
  simp [Kind.isName] at h

theorem yields_name {subject : String} {n : Name} :
    (name subject).Yields c n d ↔ c.current.kind.isName = true ∧
      n = ⟨c.current.value, c.current.span⟩ ∧ d = c.advance := by
  unfold name
  rw [yields_bind]
  constructor
  · rintro ⟨t, c', ht, h⟩
    obtain ⟨rfl, rfl⟩ := yields_current.1 ht
    split at h
    · rename_i hname
      obtain ⟨u, c'', hu, h⟩ := yields_bind.1 h
      rw [yields_skip] at hu
      subst hu
      obtain ⟨rfl, rfl⟩ := yields_pure.1 h
      exact ⟨hname, rfl, rfl⟩
    · exact absurd h not_yields_want
  · rintro ⟨hname, rfl, rfl⟩
    refine ⟨_, _, yields_current.2 ⟨rfl, rfl⟩, ?_⟩
    rw [if_pos hname]
    exact yields_bind.2 ⟨(), _, yields_skip.2 rfl, yields_pure.2 ⟨rfl, rfl⟩⟩

theorem reads_name {subject : String} {n : Name} :
    (name subject).Reads c n d ↔ c.current.kind.isName = true ∧
      n = ⟨c.current.value, c.current.span⟩ ∧ d = c.advance := by
  rw [Reads, yields_name]
  exact ⟨And.left, fun h => ⟨h, by rw [h.2.2, Cursor.advance_errors]⟩⟩

theorem fieldTypeWith_local : Local fieldTypeWith := by
  intro p q c h
  refine run_bind_congr rfl fun t c' ht => ?_
  obtain ⟨-, rfl⟩ := yields_current.1 ht
  refine run_bind_congr rfl fun b c'' hb => ?_
  obtain ⟨hb, rfl⟩ := yields_ask.1 hb
  split
  · rename_i hmap
    -- The word `map` has been read when the first inner type is.
    have hkind : c''.current.kind ≠ .endOfFile := by
      intro hend
      rw [hb, Cursor.startsMap, hend] at hmap
      simp at hmap
    have hlt := remaining_advance_lt_of_kind hkind
    refine run_bind_congr rfl fun t c₁ ht => ?_
    obtain ⟨-, rfl⟩ := yields_take.1 ht
    refine run_bind_congr rfl fun u c₂ hu => ?_
    have h₂ : c₂.remaining < c''.remaining :=
      Nat.lt_of_le_of_lt hu.leads.remaining_le hlt
    refine run_bind_congr (h c₂ h₂) fun key c₃ hkey => ?_
    refine run_bind_congr rfl fun comma c₄ hcomma => ?_
    have h₄ : c₄.remaining < c''.remaining :=
      Nat.lt_of_le_of_lt (hkey.leads.trans hcomma.leads).remaining_le h₂
    exact run_bind_congr (h c₄ h₄) fun _ _ _ => rfl
  · rfl

theorem messageStatement_congr {p q : Parser Message} (h : p.run c = q.run c) (decl : Message) :
    (messageStatement p decl).run c = (messageStatement q decl).run c := by
  refine run_bind_congr rfl fun s c' hs => ?_
  obtain ⟨-, rfl⟩ := yields_ask.1 hs
  cases s
  case message => exact run_bind_congr (run_attempt_congr h) fun _ _ _ => rfl
  all_goals rfl

theorem messageWith_local : Local messageWith := by
  intro p q c h
  refine run_bind_congr rfl fun t c₁ ht => ?_
  refine run_bind_congr rfl fun n c₂ hn => ?_
  have hlt : c₂.remaining < c.remaining := by
    obtain ⟨hname, -, rfl⟩ := yields_name.1 hn
    exact Nat.lt_of_lt_of_le (remaining_advance_lt_of_kind (ne_endOfFile_of_isName hname))
      ht.leads.remaining_le
  refine run_bind_congr (run_body_congr fun decl d hd => ?_) fun _ _ _ => rfl
  exact messageStatement_congr (h d (Nat.lt_of_le_of_lt hd.remaining_le hlt)) decl

/-- How a statement begins, as what it is taken for. -/
def opens : MessageStatement → Kind → Prop
  | .message => (· = .keyword .message)
  | .enum => (· = .keyword .enum)
  | .oneof => (· = .keyword .oneof)
  | .extend => (· = .keyword .extend)
  | .option => (· = .keyword .option)
  | .extensions => (· = .keyword .extensions)
  | .reserved => (· = .keyword .reserved)
  | .field => (· ≠ .keyword .option)

theorem opens_classify (c : Cursor) : opens (classify c) c.current.kind := by
  rw [classify]
  split <;> rename_i hk <;> (try split) <;> simp_all [opens]

end ProtoDecl.Schema.Parser
