import ProtoDecl.Proofs.Grammar.Messages

/-!
# Reading services

The word `stream` marks the type of a request or a response, unless it is the type itself.
-/

namespace ProtoDecl.Schema.Parser

variable {c d : Cursor} {F : Kind → Prop}

/-! ## Types of requests and responses -/

theorem startsStream_iff {t : Token} {w : List Token} (h : c.view = t :: w) :
    c.startsStream = true ↔ t.kind = .keyword .stream ∧
      ((nextKind w).isName = true ∨ nextKind w = .symbol .dot) := by
  rw [Cursor.startsStream, Cursor.current_of_view h, peek_one_kind h]
  simp

theorem parses_unmarkedType (subject : String) (h : c.startsStream = false) :
    ParsesAt notDot c (typeName subject) Grammar.unmarkedType where
  sound hread := by
    obtain ⟨w, hw, hn⟩ := (parses_typeName subject).sound hread
    refine ⟨w, hw, hn, fun t u v hcons ht => ?_⟩
    -- A second token would be a dot, and so the first one a mark.
    have hu : u.kind = .symbol .dot := by
      obtain ⟨t', v', rfl, ⟨-, names, hv'⟩ | ⟨hdot, -⟩⟩ := typeName_cons hn
      · cases hv' with
        | nil => simp at hcons
        | cons head _ =>
          obtain ⟨u', v', rfl, hu'⟩ := segment_begins _ _ head
          cases hcons
          exact hu'
      · cases hcons
        simp [ht] at hdot
    rw [hcons] at hw
    simp [(startsStream_iff hw).2 ⟨ht, .inr hu⟩] at h
  complete hn := (parses_typeName subject).complete hn.1

theorem parses_methodType (what : String) : ParsesAt F c (methodType what) Grammar.methodType := by
  unfold Grammar.methodType
  simp only [Rule.or_bind, Rule.bind_map, Rule.bind_bind, Rule.pure_bind]
  refine .expect (by simp) _ (.ask ?_)
  dsimp only
  refine .ite (fun hstream => ?_) (fun hstream => ?_) ?_ ?_
  · have hk : c.advance.current.kind = .keyword .stream := by
      simp only [Cursor.startsStream, Bool.and_eq_true, beq_iff_eq] at hstream
      exact hstream.1
    refine .skip hk (by simp) (.bind (parses_typeName _) (fun _ => ?_) fun n c₁ _ => ?_)
    · exact ((Rule.token_begins _).bind _).offers (by rintro _ rfl; exact nofun)
    exact .expect (by simp) _ (.pure (by rw [hstream]; rfl))
  · refine .bind (parses_unmarkedType _ (by simpa using hstream)) (fun _ => ?_) fun n c₁ _ => ?_
    · exact ((Rule.token_begins _).bind _).offers (by rintro _ rfl; exact nofun)
    exact .expect (by simp) _ (.pure (by simp [hstream]))
  · rintro w b rest ⟨_, _, _, rfl, ⟨t, rfl, ht, rfl⟩, hw⟩ hview _
    obtain ⟨u, v, rfl, hu⟩ := (typeName_begins.bind _) _ _ hw
    exact (startsStream_iff hview).2 ⟨ht, hu⟩
  · rintro w b rest ⟨u, v, n, rfl, ⟨hn, hfirst⟩, hv⟩ hview _
    obtain ⟨t, u, rfl, -⟩ := typeName_begins _ _ hn
    rw [startsStream_iff hview]
    cases u with
    | nil =>
      obtain ⟨x, v, rfl, hx⟩ := (Rule.token_begins _).bind _ v b hv
      simp [hx, Kind.isName]
    | cons x u => exact fun h => hfirst t x u rfl h.1

/-! ## Methods -/

theorem methodStatement_adds : Adds methodStatement Grammar.optionStatement
    fun options o => options ++ [o] where
  begins := begins_statement optionStatement_begins
  parses options c := by
    refine Decides.all (.kind (optionStatement_begins.map _) fun hk => ?_) fun hk a d hread => ?_
    · refine .kind ?_
      rw [if_pos hk]
      exact (parses_optionStatement hk).add fun o => by simp
    · replace hread := reads_kind_bind.1 hread
      rw [if_neg (by simpa using hk)] at hread
      exact not_reads_report_bind hread

theorem parses_methodEnd (n : String) : ParsesAt F c (methodEnd n) Grammar.methodEnd := by
  refine .accept (by simp) (fun _ => ?_) (fun _ => ?_) ?_
  · refine (parses_block methodStatement_adds []).of_iff fun w options => ?_
    simp only [foldl_concat, seen_nil, List.nil_append]
  · rw [← Rule.bind_pure]
    exact .close (by simp) (.pure rfl)
  · exact ((Rule.token_begins _).map _).offers (by rintro _ rfl; simp)

theorem parses_method (hk : c.current.kind = .keyword .rpc) :
    ParsesAt F c method Grammar.method := by
  refine .take hk (by simp) (.seq (parses_name _) fun n c₁ _ => ?_)
  refine .seq (parses_methodType _) fun request c₂ _ => ?_
  refine .expect (by simp) _ (.seq (parses_methodType _) fun response c₃ _ => ?_)
  refine .seq (parses_methodEnd _) fun options c₄ _ => ?_
  exact .spanned rfl

/-! ## Services -/

/-- Adds an item to a service. -/
def addServiceItem (decl : Service) : Grammar.ServiceItem → Service
  | .option o => { decl with options := decl.options ++ [o] }
  | .method m => { decl with methods := decl.methods ++ [m] }

theorem foldl_addServiceItem (n : Name) (items : List Grammar.ServiceItem) :
    items.foldl addServiceItem ⟨n, [], [], nowhere⟩ = Grammar.Service.ofItems n items := by
  induction items using List.reverseRecOn with
  | nil => rfl
  | append_singleton items item ih =>
    rw [List.foldl_append, ih]
    cases item <;> simp [addServiceItem, Grammar.Service.ofItems]

theorem method_begins : Grammar.method.Begins (· = .keyword .rpc) :=
  (Rule.token_begins _).bind _

theorem serviceStatement_adds : Adds serviceStatement Grammar.serviceItem addServiceItem where
  begins := .or ((begins_statement optionStatement_begins).map _)
    ((begins_statement method_begins).map _)
  parses decl c := by
    simp only [Grammar.serviceItem, Rule.map_or, Rule.map_map]
    refine Decides.all (.or (.kind (optionStatement_begins.map _) fun hk => ?_)
      (.kind (method_begins.map _) fun hk => ?_)) fun hk a d => ?_
    · refine .kind ?_
      rw [hk]
      exact (parses_optionStatement hk).add fun o => by simp [Service.seen_eq, addServiceItem]
    · refine .kind ?_
      rw [hk]
      exact (parses_method hk).add fun o => by simp [Service.seen_eq, addServiceItem]
    · intro hread
      replace hread := reads_kind_bind.1 hread
      split at hread <;> simp_all [not_reads_report_bind]

theorem service_begins : Grammar.service.Begins (· = .keyword .service) :=
  (Rule.token_begins _).bind _

theorem parses_service (hk : c.current.kind = .keyword .service) :
    ParsesAt F c service Grammar.service := by
  refine .take hk (by simp) (.seq (parses_name _) fun n c₁ _ => ?_)
  refine (parses_body serviceStatement_adds _).finish fun decl items hdecl span => ?_
  exact congrArg (fun d : Service => { d with span := nowhere })
    (hdecl.trans (foldl_addServiceItem (bare n) items))

end ProtoDecl.Schema.Parser
