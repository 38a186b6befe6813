import DeclGraph.Proofs.TranslationUnit.Tracing

/-!
# Conversions that can be traced

Whatever a unit is like, the nodes of types in its compilation can be traced to the types that they
were made from (`exists_traced`).  The functions that convert types and declarations are taken
together, by induction on the fuel (`AllTrace`), then statements, functions, and what stands in
containers.
-/

namespace DeclGraph

variable {s : ConversionSetting} {p : Account} {a : Option TypeId} {t : TypeId} {id : NodeId}
  {k : Kind} {v : Value} {name : String} {fuel : Nat}

/-! ### Nodes of types -/

/-- A new node of a type is of the kind for it and leads to no node. -/
theorem CType.exists_blank {t : CType} {fresh : Node} (h : t.blank? = some fresh) :
    ∃ k given, fresh = .make k given ∧ t.kind.shape.nodeKind? = some k ∧
      (∀ g : Graph, g.Suits k given) ∧ ∀ e ∈ given, ∀ m, ¬e.2.LeadsTo m := by
  unfold blank? at h
  cases hshape : t.kind.shape with
  | invalid | elaborated | record | enum | typedef => simp [hshape] at h
  | primitive | pointer | array | function | unexposed =>
    simp only [hshape, Option.some.injEq] at h
    refine ⟨_, _, h.symm, rfl, fun g => ?_, ?_⟩
    · simp [Graph.Suits, Kind.read]
    · simp [Value.not_leadsTo_scalar, Value.text, Value.int]

namespace Tracing

open DeclGraph.Convert

theorem addType {fresh : Node} (hfresh : (s.unit.type t).blank? = some fresh) :
    Tracing s p (addType (s.unit.type t).key fresh) fun id p' => p'.made id = some (.type t) := by
  obtain ⟨k, given, rfl, hkind, hsuits, hleads⟩ := CType.exists_blank hfresh
  have hk := TypeShape.mem_structural hkind
  intro hp
  -- a blank node leads nowhere yet
  have hentered : Traces s p (p.enter (.make k given) (some (.type t))) := by
    refine hp.enter (hsuits _) ?_ (fun _ => ⟨t, rfl⟩) ?_
    · rintro o ⟨⟩
      exact ⟨List.mem_cons_of_mem _ hk, hkind⟩
    · rintro o ⟨⟩ e he - m hm
      exact absurd hm (hleads e he m)
  have hmade : (p.addType (s.unit.type t).key (.make k given) t).made p.graph.size =
      some (.type t) := if_pos rfl
  intro id σ hrun
  obtain ⟨rfl, rfl⟩ := Prod.mk.inj (Except.ok.inj hrun)
  refine ⟨p.addType (s.unit.type t).key (.make k given) t, rfl, hentered.trans ?_, hmade⟩
  refine hentered.traced.remember rfl rfl fun key id hid => ?_
  by_cases hkey : key = (s.unit.type t).key
  · subst hkey
    obtain rfl := Option.some.inj ((Entries.get?_put_self _ _ _).symm.trans hid)
    exact ⟨t, hmade, rfl⟩
  · exact hentered.traced.types key id ((Entries.get?_put_of_ne hkey _ _).symm.trans hid)

/-- A parameter that a type tells of. -/
theorem addArgument {a : TypeId} (hv : Serves s p (some a) v) (id : NodeId) :
    Tracing s p (Convert.add
      (.make .parameter [("name", .text ""), ("type", v), ("parent", .node id)])) fun m p' =>
      p'.made m = some (.argument a) := by
  refine fun hp => .add (some (.argument a)) ⟨hp.enter ?_ ?_ ?_ ?_, if_pos rfl⟩
  · simpa [Graph.Suits, Kind.read] using hv.fits hp
  · rintro o ⟨⟩
    exact ⟨List.mem_cons_self, rfl⟩
  · exact fun hk => absurd hk (by decide)
  · rintro o ⟨⟩ e he ⟨c, hc⟩ m hm
    simp only [List.mem_cons, List.not_mem_nil, or_false] at he
    obtain rfl | rfl | rfl := he
    · exact absurd hm (Value.not_leadsTo_scalar _ m)
    · exact .argument (hv.takenFor hm)
    · simp [Kind.read] at hc

variable (hmade : p.made id = some (.type t))

include hmade

/-- A component of a type. -/
theorem setComponent (hkind : (s.unit.type t).kind.shape.nodeKind? = some k)
    (hread : ∀ e ∈ k.read, e.1 = name → e.2 = .link Kind.types)
    (ha : a ∈ (s.unit.type t).components) (hv : Serves s p a v) :
    Tracing s p (Convert.setField id name v) fun _ _ => True := by
  refine fun hp => .setField ⟨?_, trivial⟩
  refine hp.setField (hp.isKind hmade hkind) (fun c hc => ?_) fun o ho m hm => ?_
  · obtain rfl := hread _ hc rfl
    exact hv.fits hp
  · obtain rfl := Option.some.inj (hmade.symm.trans ho)
    exact .component ha (hv.takenFor hm)

/-- The parameters of a type. -/
theorem setParameters (hkind : (s.unit.type t).kind.shape.nodeKind? = some .functionType)
    {ids : List NodeId} (hids : ∀ m ∈ ids, ∃ a, some a ∈ (s.unit.type t).components ∧
      p.made m = some (.argument a)) :
    Tracing s p (Convert.setField id "parameters" (.nodes ids)) fun _ _ => True := by
  have hread : ∀ e ∈ Kind.functionType.read, e.1 = "parameters" → e.2 = .nodes .parameter := by
    decide
  refine fun hp => .setField ⟨?_, trivial⟩
  refine hp.setField (hp.isKind hmade hkind) (fun c hc => ?_) fun o ho m hm => ?_
  · obtain rfl := hread _ hc rfl
    refine Graph.fits_nodes fun m hm => ?_
    obtain ⟨a, -, hm⟩ := hids m hm
    exact hp.isKind hm rfl
  · obtain rfl := Option.some.inj (hmade.symm.trans ho)
    obtain ⟨a, ha, hm⟩ := hids m (Value.leadsTo_nodes.1 hm)
    exact .parameter ha hm

end Tracing

/-! ### Types and declarations -/

open DeclGraph.Convert in
/-- Conversions with some fuel can be traced. -/
structure AllTrace (s : ConversionSetting) (fuel : Nat) : Prop where
  type : ∀ {p} a, Tracing s p (typeWithin s fuel a) fun v p' => Serves s p' a v
  newType : ∀ {p fresh} t, (s.unit.type t).blank? = some fresh →
    Tracing s p (newTypeWithin s fuel (s.unit.type t) fresh) fun v p' => Serves s p' (some t) v
  record : ∀ {p} c parent, Tracing s p (recordWithin s fuel c parent) fun id p' =>
    (p'.graph.node id).isKind .record
  member : ∀ {p id} child, (p.graph.node id).isKind .record →
    Tracing s p (memberWithin s fuel id child) fun _ _ => True
  enum : ∀ {p} c parent, Tracing s p (enumWithin s fuel c parent) fun id p' =>
    (p'.graph.node id).isKind .enum
  typedef : ∀ {p} c parent, Tracing s p (typedefWithin s fuel c parent) fun id p' =>
    (p'.graph.node id).isKind .typedef
  field : ∀ {p} c parent, Tracing s p (fieldWithin s fuel c parent) fun id p' =>
    (p'.graph.node id).isKind .field

namespace AllTrace

open DeclGraph.Convert

theorem zero : AllTrace s 0 where
  type _ := by rw [typeWithin]; exact .throw _
  newType _ _ := by rw [newTypeWithin]; exact .throw _
  record _ _ := by rw [recordWithin]; exact .throw _
  member _ _ := by rw [memberWithin]; exact .throw _
  enum _ _ := by rw [enumWithin]; exact .throw _
  typedef _ _ := by rw [typedefWithin]; exact .throw _
  field _ _ := by rw [fieldWithin]; exact .throw _

variable (ih : AllTrace s fuel)

include ih

theorem type_succ (a : Option TypeId) :
    Tracing s p (typeWithin s (fuel + 1) a) fun v p' => Serves s p' a v := by
  cases a with
  | none =>
    rw [typeWithin]
    exact .pure (.inl rfl)
  | some t =>
    rw [typeWithin]
    refine .reads_bind (.check _) ?_
    have named {k : Kind} {x : Convert NodeId} (hk : k ∈ Kind.named)
        (hx : Tracing s p x fun id p' => (p'.graph.node id).isKind k) :
        Tracing s p (do return .node (← x)) fun v p' => Serves s p' (some t) v :=
      hx.bind fun id p₁ _ hid => .pure (.inr ⟨id, rfl, .named ⟨k, hk, hid⟩⟩)
    cases hshape : (s.unit.type t).kind.shape with
    | invalid => exact .pure (.inl rfl)
    | elaborated => exact (ih.type _).mono fun _ _ _ hv => hv.elaborated hshape
    | record => exact named (by decide) (ih.record _ _)
    | enum => exact named (by decide) (ih.enum _ _)
    | typedef => exact named (by decide) (ih.typedef _ _)
    | primitive | pointer | array | function | unexposed =>
      exact ih.newType t (by rw [CType.blank?, hshape])

theorem fillType (hmade : p.made id = some (.type t)) :
    Tracing s p (fillType s fuel (s.unit.type t) id) fun _ _ => True := by
  unfold Convert.fillType
  cases hshape : (s.unit.type t).kind.shape with
  | pointer =>
    refine (ih.type _).bind fun v p₁ h₁ hv => ?_
    exact .setComponent (h₁.made _ _ hmade) (by rw [hshape]; rfl) (by decide)
      (by simp [CType.components, hshape]) hv
  | array =>
    refine (ih.type _).bind fun v p₁ h₁ hv => ?_
    exact .setComponent (h₁.made _ _ hmade) (by rw [hshape]; rfl) (by decide)
      (by simp [CType.components, hshape]) hv
  | function prototyped =>
    have hkind : (s.unit.type t).kind.shape.nodeKind? = some .functionType := by rw [hshape]; rfl
    refine (ih.type _).bind fun v p₁ h₁ hv => ?_
    have hmade₁ := h₁.made _ _ hmade
    refine (Tracing.setComponent hmade₁ hkind (by decide)
      (by simp [CType.components, hshape]) hv).bind fun _ p₂ h₂ _ => ?_
    split
    · next hprototyped =>
      have hmade₂ := h₂.made _ _ hmade₁
      refine (Tracing.setScalar (h₂.traced.isKind hmade₂ hkind) (by decide) _).bind
        fun _ p₃ h₃ _ => ?_
      refine (Tracing.mapM (F := fun a m p => p.made m = some (.argument a))
        (fun _ _ _ _ hm h => h.made _ _ hm) fun a p => ?_).bind fun ids p₄ h₄ hids => ?_
      · exact (ih.type _).bind fun v p₁ _ hv => .addArgument hv id
      · -- every parameter was made from an argument of the type
        refine .setParameters (h₄.made _ _ (h₃.made _ _ hmade₂)) hkind fun m hm => ?_
        obtain ⟨a, ha, hm⟩ := hids m hm
        exact ⟨a, by simp [CType.components, hshape, hprototyped, ha], hm⟩
    · exact .pure trivial
  | invalid | elaborated | record | enum | typedef | primitive | unexposed => exact .pure trivial

theorem newType_succ {fresh : Node} (t : TypeId) (hfresh : (s.unit.type t).blank? = some fresh) :
    Tracing s p (newTypeWithin s (fuel + 1) (s.unit.type t) fresh) fun v p' =>
      Serves s p' (some t) v := by
  have hs : (s.unit.type t).kind.shape.isStructural := by
    by_contra hs
    cases hshape : (s.unit.type t).kind.shape <;>
      simp_all [CType.blank?, TypeShape.isStructural]
  rw [newTypeWithin_succ]
  refine .reads_bind (.check _) (.of_traced fun hp => .converted_bind ?_)
  split
  · next id hfound =>
    obtain ⟨t₀, hmade, hkey⟩ := hp.types _ _ hfound
    exact .pure (.inr ⟨id, rfl, .structural (.structural hs) hmade hkey⟩)
  · refine (Tracing.addType hfresh).bind fun id p₁ h₁ hmade => ?_
    refine (ih.fillType hmade).bind fun _ p₂ h₂ _ => .pure (.inr ⟨id, rfl, ?_⟩)
    exact .structural (.structural hs) (h₂.made _ _ hmade) rfl

theorem member_succ (child : CursorId) (hid : (p.graph.node id).isKind .record) :
    Tracing s p (memberWithin s (fuel + 1) id child) fun _ _ => True := by
  rw [memberWithin]
  refine .reads_bind (.kindOf _) ?_
  split_ifs
  · exact .listing hid (ih.field _ _) fun _ _ hid hitem =>
      .append hid (by decide) (by decide) hitem
  · exact .listing hid (ih.record _ _) fun _ _ hid hitem =>
      .appendOnce hid (by decide) (by decide) hitem
  · exact .listing hid (ih.enum _ _) fun _ _ hid hitem =>
      .appendOnce hid (by decide) (by decide) hitem
  · exact .listing hid (.addAttribute _ _) fun _ _ hid hitem =>
      .append hid (by decide) (by decide) hitem
  · exact .pure trivial

theorem fillRecord (c : Cursor) (hid : (p.graph.node id).isKind .record) :
    Tracing s p (fillRecord s fuel c id) fun id' p' => (p'.graph.node id').isKind .record := by
  unfold Convert.fillRecord
  refine .node_bind ?_
  split
  · exact .pure hid
  · refine (Tracing.setScalar hid (by decide) _).bind fun _ p₁ h₁ _ => .reads_bind (.sizeOf _ c) ?_
    have hid₁ := h₁.kind _ _ hid
    refine (Tracing.setScalar hid₁ (by decide) _).bind fun _ p₂ h₂ _ => ?_
    refine (Tracing.spanOf c).bind fun _ p₃ h₃ _ => ?_
    have hid₃ := h₃.kind _ _ (h₂.kind _ _ hid₁)
    refine (Tracing.setUnread hid₃ (by decide) (by decide) _).bind fun _ p₄ h₄ _ => ?_
    have hid₄ := h₄.kind _ _ hid₃
    exact .returning hid₄ (.forM hid₄ _ fun child p hid => ih.member child hid)

theorem record_succ (c : CursorId) (parent : Value) :
    Tracing s p (recordWithin s (fuel + 1) c parent) fun id p' =>
      (p'.graph.node id).isKind .record := by
  rw [recordWithin_succ]
  refine .reads_bind (.keyOf _) (.declared_bind ?_)
  split
  · next id hfound =>
    have hkind := (Option.filter_eq_some_iff.1 hfound).2
    exact (Tracing.adopt hkind (by decide) (by decide) parent).bind fun _ p₁ h₁ _ =>
      ih.fillRecord _ (h₁.kind _ _ hkind)
  · exact (Tracing.newRecord _ parent).bind fun id p₁ _ hid => .declare_bind (ih.fillRecord _ hid)

theorem enum_succ (c : CursorId) (parent : Value) :
    Tracing s p (enumWithin s (fuel + 1) c parent) fun id p' =>
      (p'.graph.node id).isKind .enum := by
  rw [enumWithin_succ]
  refine .reads_bind (.keyOf _) (.declared_bind ?_)
  split
  · next id hfound =>
    have hkind := (Option.filter_eq_some_iff.1 hfound).2
    exact .returning hkind (.adopt hkind (by decide) (by decide) parent)
  · refine (Tracing.newEnum _ parent).bind fun id p₁ _ hid => .declare_bind ?_
    refine (ih.type _).bind fun v p₂ h₂ _ => ?_
    have hid₂ := h₂.kind _ _ hid
    refine (Tracing.setUnread hid₂ (by decide) (by decide) v).bind fun _ p₃ h₃ _ => ?_
    have hid₃ := h₃.kind _ _ hid₂
    refine .returning hid₃ (.forM hid₃ _ fun child p hid => ?_)
    refine .reads_bind (.kindOf _) ?_
    split
    · exact .listing hid (.addEnumItem _ id) fun _ _ hid hitem =>
        .append hid (by decide) (by decide) hitem
    · exact .pure trivial

theorem typedef_succ (c : CursorId) (parent : Value) :
    Tracing s p (typedefWithin s (fuel + 1) c parent) fun id p' =>
      (p'.graph.node id).isKind .typedef := by
  rw [typedefWithin]
  refine .reads_bind (.keyOf _) (.declared_bind ?_)
  split
  · next id hfound =>
    have hkind := (Option.filter_eq_some_iff.1 hfound).2
    exact .returning hkind (.adopt hkind (by decide) (by decide) parent)
  · refine (Tracing.newTypedef _ parent).bind fun id p₁ _ hid => .declare_bind ?_
    refine (ih.type _).bind fun v p₂ h₂ hv => ?_
    have hid₂ := h₂.kind _ _ hid
    exact .returning hid₂ (.setLink hid₂ (by decide) (by decide) hv)

theorem field_succ (c : CursorId) (parent : Value) :
    Tracing s p (fieldWithin s (fuel + 1) c parent) fun id p' =>
      (p'.graph.node id).isKind .field := by
  rw [fieldWithin]
  refine .reads_bind (.nameOf _) (.reads_bind (.typeOf _) ((ih.type _).bind fun v p₁ h₁ hv => ?_))
  refine .reads_bind (.initialValue _ _) ((Tracing.spanOf _).bind fun _ p₂ h₂ _ => ?_)
  have hfits := (hv.mono h₂.toRecalls).fits h₂.traced
  have hinitial := Graph.fits_plain_initialValue (g := p₂.graph) s.unit (s.unit.cursor c)
  refine (Tracing.add (by decide)
    (by simp [Graph.Suits, Kind.read, hfits, hinitial])).bind fun id p₃ _ hid => ?_
  refine (Tracing.addAttributes _ _ _).bind fun ids p₄ h₄ hids => ?_
  have hid₄ := h₄.kind _ _ hid
  exact .returning hid₄ (.setNodes hid₄ (by decide) (by decide) hids)

omit ih in
theorem all (s : ConversionSetting) (fuel : Nat) : AllTrace s fuel := by
  induction fuel with
  | zero => exact .zero
  | succ fuel ih =>
    exact {
      type := ih.type_succ
      newType := ih.newType_succ
      record := ih.record_succ
      member := ih.member_succ
      enum := ih.enum_succ
      typedef := ih.typedef_succ
      field := ih.field_succ }

end AllTrace

namespace Tracing

open DeclGraph.Convert

variable {q : NodeId}

theorem typeNode (a : Option TypeId) :
    Tracing s p (typeNode s a) fun v p' => Serves s p' a v := (AllTrace.all s _).type a

/-! ### Statements -/

theorem statementNode (parent : Value) (c : CursorId) :
    Tracing s p (statementNode s parent c) fun id p' => (p'.graph.node id).isKind .statement := by
  refine .reads_bind (.kindOf _) (.reads_bind (.nameOf _) ((spanOf _).bind fun _ _ _ _ => ?_))
  refine (addUnread (by decide) rfl).bind fun id p₁ _ hid => ?_
  split
  · refine .reads_bind (.typeOf _) ((typeNode _).bind fun v p₂ h₂ _ => ?_)
    have hid₂ := h₂.kind _ _ hid
    exact returning hid₂ (setUnread hid₂ (by decide) (by decide) v)
  · exact .pure hid

theorem statementNodes (parent : Value) (ts : List CursorTree) :
    Tracing s p (statementNodes s parent ts) fun ids p' =>
      ∀ id ∈ ids, (p'.graph.node id).isKind .statement := by
  induction ts generalizing p with
  | nil => exact .pure fun id hid => absurd hid List.not_mem_nil
  | cons t rest ih => exact cons (statementNode _ _) fun _ => ih

theorem expand (pending : Pending)
    (hpending : ∀ e ∈ pending, (p.graph.node e.2).isKind .statement) :
    Tracing s p (expand s pending) fun _ _ => True := by
  induction pending using Convert.expand.induct generalizing p with
  | case1 =>
    rw [Convert.expand]
    exact .pure trivial
  | case2 t id rest ih =>
    rw [Convert.expand]
    obtain ⟨hid, hrest⟩ := List.forall_mem_cons.1 hpending
    refine (statementNodes _ _).bind fun ids p₁ h₁ hids => ?_
    refine (setNodes (h₁.kind _ _ hid) (by decide) (by decide) hids).bind fun _ p₂ h₂ _ => ?_
    refine ih ids fun e he => ?_
    rcases List.mem_append.1 he with he | he
    · exact h₂.kind _ _ (hids _ (List.of_mem_zip (List.mem_reverse.1 he)).2)
    · exact h₂.kind _ _ (h₁.kind _ _ (hrest e he))

theorem addStatement (parent : Value) (t : CursorTree) :
    Tracing s p (addStatement s parent t) fun id p' => (p'.graph.node id).isKind .statement := by
  refine (statementNode _ _).bind fun id p₁ _ hid => ?_
  exact returning hid (expand _ fun e he => List.mem_singleton.1 he ▸ hid)

theorem addStatements (parent : Value) (ts : List CursorTree) :
    Tracing s p (addStatements s parent ts) fun ids p' =>
      ∀ id ∈ ids, (p'.graph.node id).isKind .statement := by
  induction ts generalizing p with
  | nil => exact .pure fun id hid => absurd hid List.not_mem_nil
  | cons t rest ih => exact cons (addStatement _ _) fun _ => ih

/-! ### Functions -/

theorem addParameters (parent : Value) (arguments : List CursorId) :
    Tracing s p (addParameters s parent arguments) fun ids p' =>
      ∀ id ∈ ids, (p'.graph.node id).isKind .parameter := by
  induction arguments generalizing p with
  | nil => exact .pure fun id hid => absurd hid List.not_mem_nil
  | cons argument rest ih =>
    refine .reads_bind (.nameOf _) (.reads_bind (.typeOf _) ((typeNode _).bind fun v p₁ _ hv => ?_))
    refine (spanOf _).bind fun _ p₂ h₂ _ => ?_
    have hfits := (hv.mono h₂.toRecalls).fits h₂.traced
    exact cons (add (by decide) (by simp [Graph.Suits, Kind.read, hfits])) fun _ => ih

theorem addFunctionParts (hid : (p.graph.node id).isKind .function) (ts : List CursorTree) :
    Tracing s p (addFunctionParts s id ts) fun _ _ => True := by
  induction ts generalizing p with
  | nil => exact .pure trivial
  | cons t rest ih =>
    refine .reads_bind (.kindOf _) ?_
    split_ifs
    · refine (addStatements _ _).bind fun ids p₁ h₁ hids => ?_
      have hid₁ := h₁.kind _ _ hid
      exact (setNodes hid₁ (by decide) (by decide) hids).bind fun _ p₂ h₂ _ =>
        ih (h₂.kind _ _ hid₁)
    · exact listing hid (addAttribute _ _) fun _ _ hid hitem =>
        (append hid (by decide) (by decide) hitem).bind fun _ _ h₂ _ => ih (h₂.kind _ _ hid)
    · exact .reads_bind (.pure _) (ih hid)

theorem addFunction (t : CursorTree) (parent : Value) :
    Tracing s p (addFunction s t parent) fun id p' => (p'.graph.node id).isKind .function := by
  refine .reads_bind (.nameOf _) ((typeNode _).bind fun v p₁ _ hv => ?_)
  refine .reads_bind (.markersOf _ _) ((spanOf _).bind fun _ p₂ h₂ _ => ?_)
  have hfits := (hv.mono h₂.toRecalls).fits h₂.traced
  have hmarkers := Graph.fits_plain_markers (g := p₂.graph) s.unit (s.unit.cursor t.id)
  refine (add (by decide)
    (by simp [Graph.Suits, Kind.read, hfits, hmarkers])).bind fun id p₃ _ hid => ?_
  refine (addParameters _ _).bind fun ids p₄ h₄ hids => ?_
  have hid₄ := h₄.kind _ _ hid
  refine (setNodes hid₄ (by decide) (by decide) hids).bind fun _ p₅ h₅ _ => ?_
  have hid₅ := h₅.kind _ _ hid₄
  exact returning hid₅ (addFunctionParts hid₅ _)

/-! ### Containers -/

mutual

/-- What a tree declares can be traced. -/
theorem visit : (t : CursorTree) → ∀ {p : Account} {id : NodeId} {k : Kind},
    (p.graph.node id).isKind k → k = .scope ∨ k = .compilation →
    Tracing s p (visit s id t) fun _ _ => True
  | .node cursor children, p, id, k, hid, hk => by
    have hother : k ∉ .parameter :: Kind.structural := by
      obtain rfl | rfl := hk <;> decide
    have hlists : ∀ e ∈ [("functions", Kind.function), ("classes", .record), ("enums", .enum),
        ("typedefs", .typedef), ("fields", .field), ("namespaces", .scope)],
        ∀ e' ∈ k.read, e'.1 = e.1 → e'.2 = .nodes e.2 := by
      obtain rfl | rfl := hk <;> decide
    rw [Convert.visit]
    refine .reads_bind (.kindOf _) ?_
    split_ifs
    · exact listing hid (addFunction _ _) fun _ _ hid hitem =>
        append hid hother (hlists ("functions", _) (by decide)) hitem
    · exact listing hid ((AllTrace.all s _).record _ _) fun _ _ hid hitem =>
        appendOnce hid hother (hlists ("classes", _) (by decide)) hitem
    · exact listing hid ((AllTrace.all s _).enum _ _) fun _ _ hid hitem =>
        appendOnce hid hother (hlists ("enums", _) (by decide)) hitem
    · exact listing hid ((AllTrace.all s _).typedef _ _) fun _ _ hid hitem =>
        appendOnce hid hother (hlists ("typedefs", _) (by decide)) hitem
    · exact listing hid ((AllTrace.all s _).field _ _) fun _ _ hid hitem =>
        append hid hother (hlists ("fields", _) (by decide)) hitem
    -- a scope is a container of its own
    · refine .reads_bind (.nameOf _) ((spanOf _).bind fun _ p₁ h₁ _ => ?_)
      refine (addUnread (by decide) rfl).bind fun x p₂ h₂ hx => ?_
      refine (visitAll children hx (.inl rfl)).bind fun _ p₃ h₃ _ => ?_
      exact append (h₃.kind _ _ (h₂.kind _ _ (h₁.kind _ _ hid))) hother
        (hlists ("namespaces", _) (by decide)) (h₃.kind _ _ hx)
    · exact .pure trivial

/-- What trees declare can be traced. -/
theorem visitAll : (ts : List CursorTree) → ∀ {p : Account} {id : NodeId} {k : Kind},
    (p.graph.node id).isKind k → k = .scope ∨ k = .compilation →
    Tracing s p (visitAll s id ts) fun _ _ => True
  | [], _, _, _, _, _ => by
    rw [Convert.visitAll]
    exact .pure trivial
  | t :: rest, p, id, k, hid, hk => by
    rw [Convert.visitAll]
    exact (visit t hid hk).bind fun _ _ h₁ _ => visitAll rest (h₁.kind _ _ hid) hk

end

theorem visitTop (hid : (p.graph.node id).isKind .compilation) (rest : List CursorId) :
    Tracing s p (visitTop s id rest) fun _ _ => True := by
  induction rest generalizing p with
  | nil => exact .pure trivial
  | cons cursor rest ih =>
    refine .reads_bind (.check _) ?_
    split_ifs
    · refine .reads_bind (.kindOf _) ?_
      split_ifs
      · exact listing hid (addMacro _ _) fun _ _ hid hitem =>
          (append hid (by decide) (by decide) hitem).bind fun _ _ h₂ _ => ih (h₂.kind _ _ hid)
      · exact listing hid (addAttribute _ _) fun _ _ hid hitem =>
          (append hid (by decide) (by decide) hitem).bind fun _ _ h₂ _ => ih (h₂.kind _ _ hid)
      · exact (visit _ hid (.inr rfl)).bind fun _ p₁ h₁ _ => ih (h₁.kind _ _ hid)
    · exact .reads_bind (.pure _) (ih hid)

theorem convertUnit (source : String) :
    Tracing s p (convertUnit s source) fun id p' => (p'.graph.node id).isKind .compilation := by
  refine (mapM (F := fun _ id p => (p.graph.node id).isKind .diagnostic)
    (fun _ _ _ _ hid h => h.kind _ _ hid) fun r _ => addRemark r).bind fun ids p₁ _ hids => ?_
  have hremarks : p₁.graph.Fits (.nodes .diagnostic) (.nodes ids) :=
    Graph.fits_nodes fun m hm => (hids m hm).elim fun _ h => h.2
  refine (add (by decide) (by simp [Graph.Suits, Kind.read, hremarks])).bind fun id p₂ _ hid => ?_
  exact returning hid (visitTop hid _)

end Tracing

/-- Before a conversion there is nothing to trace. -/
theorem traced_start (s : ConversionSetting) : Traced s .start where
  legible id k hid := absurd hid (by simp [Account.start, Conversion.start, Graph.node, Graph.empty,
    Node.isKind, Node.absent])
  kinds _ _ h := nomatch h
  told id k _ hid := absurd hid (by simp [Account.start, Conversion.start, Graph.node, Graph.empty,
    Node.isKind, Node.absent])
  types _ _ h := nomatch h
  reaches _ _ _ h := nomatch h

/-- What a unit is converted to can be traced. -/
theorem TranslationUnit.exists_traced {u : TranslationUnit} {source : String}
    {options : ParseOptions} {c : Compilation} (hc : u.compilation source options = .ok c) :
    ∃ p id, Traced ⟨u, options⟩ p ∧ p.graph = c.graph ∧ c.root = .node id ∧
      (c.graph.node id).isKind .compilation := by
  unfold compilation at hc
  split at hc
  · next id σ hrun =>
    obtain rfl := Except.ok.inj hc
    obtain ⟨p, rfl, h, hid⟩ := Tracing.convertUnit source (traced_start _) id σ hrun
    exact ⟨p, id, h.traced, rfl, rfl, hid⟩
  · exact absurd hc (by simp)

end DeclGraph
