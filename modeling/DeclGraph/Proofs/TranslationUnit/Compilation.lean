import DeclGraph.Proofs.TranslationUnit.Declarations

/-!
# Converting units

A statement is complete when its children have nodes, a function when all of its parts have been
converted, a container when all of its trees have been visited.  Until then their nodes are open;
the statements on the stack of `Convert.expand` are the open ones.  Converting a unit leaves a sound
account without open nodes, in which the result is a compilation of the unit: `exists_account`.
-/

namespace DeclGraph

open Account

variable {s : ConversionSetting} {O : Set NodeId} {p : Account}

/-! ### Open statements -/

/-- The nodes on a stack. -/
def Convert.Pending.ids (pending : Convert.Pending) : Set NodeId := {id | id ∈ pending.map Prod.snd}

/-- The node of a statement whose children may still be missing. -/
def IsPending (s : ConversionSetting) (p : Account) (e : CursorTree × NodeId) : Prop :=
  InBody s e.1 ∧ p.made e.2 = some (.statement e.1) ∧
    ∃ children, IsStatementOf s p (s.unit.cursor e.1.id) children e.2

theorem IsPending.keep {X : Set NodeId} {p' : Account} {e : CursorTree × NodeId}
    (h : IsPending s p e) (hb : Consistent s p) (hk : Keeps X p p') (hX : e.2 ∉ X) :
    IsPending s p' e := by
  obtain ⟨hbody, hmade, children, hstatement⟩ := h
  exact ⟨hbody, hk.made _ _ hmade, children, hstatement.keep hk (hb.below _ _ hmade) hX⟩

/-! ### One more tree in a container -/

namespace Members.Of

variable {m : Members} {ts : List CursorTree} {t : CursorTree} {id : NodeId} (h : m.Of s p ts)

include h

theorem record (hkind : (s.unit.cursor t.id).kind.isRecord) (hid : Represents s p t.id .record id) :
    { m with classes := m.classes ++ [id] }.Of s p (ts ++ [t]) := by
  rcases CursorKind.isRecord_iff.1 hkind with heq | heq <;>
    exact ⟨h.classes.concat_of_pos hkind hid, h.enums.concat_of_neg (by rw [heq]; decide),
      h.fields.concat_of_neg (by rw [heq]; decide), h.functions.concat_of_neg (by rw [heq]; decide),
      h.typedefs.concat_of_neg (by rw [heq]; decide),
      h.namespaces.concat_of_neg (by rw [heq]; decide)⟩

theorem enum (hkind : (s.unit.cursor t.id).kind = .enum)
    (hid : Represents s p t.id .enum id) :
    { m with enums := m.enums ++ [id] }.Of s p (ts ++ [t]) where
  classes := h.classes.concat_of_neg (by rw [hkind]; decide)
  enums := h.enums.concat_of_pos (by simp [hkind]) hid
  fields := h.fields.concat_of_neg (by rw [hkind]; decide)
  functions := h.functions.concat_of_neg (by rw [hkind]; decide)
  typedefs := h.typedefs.concat_of_neg (by rw [hkind]; decide)
  namespaces := h.namespaces.concat_of_neg (by rw [hkind]; decide)

theorem var (hkind : (s.unit.cursor t.id).kind = .var)
    (hid : p.made id = some (.field (s.unit.cursor t.id))) :
    { m with fields := m.fields ++ [id] }.Of s p (ts ++ [t]) where
  classes := h.classes.concat_of_neg (by rw [hkind]; decide)
  enums := h.enums.concat_of_neg (by rw [hkind]; decide)
  fields := h.fields.concat_of_pos (by simp [hkind]) hid
  functions := h.functions.concat_of_neg (by rw [hkind]; decide)
  typedefs := h.typedefs.concat_of_neg (by rw [hkind]; decide)
  namespaces := h.namespaces.concat_of_neg (by rw [hkind]; decide)

theorem function (hkind : (s.unit.cursor t.id).kind = .function)
    (hid : p.made id = some (.function t)) :
    { m with functions := m.functions ++ [id] }.Of s p (ts ++ [t]) where
  classes := h.classes.concat_of_neg (by rw [hkind]; decide)
  enums := h.enums.concat_of_neg (by rw [hkind]; decide)
  fields := h.fields.concat_of_neg (by rw [hkind]; decide)
  functions := h.functions.concat_of_pos (by simp [hkind]) hid
  typedefs := h.typedefs.concat_of_neg (by rw [hkind]; decide)
  namespaces := h.namespaces.concat_of_neg (by rw [hkind]; decide)

theorem typedef (hkind : (s.unit.cursor t.id).kind = .typedef)
    (hid : Represents s p t.id .typedef id) :
    { m with typedefs := m.typedefs ++ [id] }.Of s p (ts ++ [t]) where
  classes := h.classes.concat_of_neg (by rw [hkind]; decide)
  enums := h.enums.concat_of_neg (by rw [hkind]; decide)
  fields := h.fields.concat_of_neg (by rw [hkind]; decide)
  functions := h.functions.concat_of_neg (by rw [hkind]; decide)
  typedefs := h.typedefs.concat_of_pos (by simp [hkind]) hid
  namespaces := h.namespaces.concat_of_neg (by rw [hkind]; decide)

theorem scope (hkind : (s.unit.cursor t.id).kind = .scope)
    (hid : p.made id = some (.scope t)) :
    { m with namespaces := m.namespaces ++ [id] }.Of s p (ts ++ [t]) where
  classes := h.classes.concat_of_neg (by rw [hkind]; decide)
  enums := h.enums.concat_of_neg (by rw [hkind]; decide)
  fields := h.fields.concat_of_neg (by rw [hkind]; decide)
  functions := h.functions.concat_of_neg (by rw [hkind]; decide)
  typedefs := h.typedefs.concat_of_neg (by rw [hkind]; decide)
  namespaces := h.namespaces.concat_of_pos (by simp [hkind]) hid

/-- A tree that declares nothing. -/
theorem other (hfunction : (s.unit.cursor t.id).kind ≠ .function)
    (hrecord : ¬(s.unit.cursor t.id).kind.isRecord) (henum : (s.unit.cursor t.id).kind ≠ .enum)
    (htypedef : (s.unit.cursor t.id).kind ≠ .typedef) (hvar : (s.unit.cursor t.id).kind ≠ .var)
    (hscope : (s.unit.cursor t.id).kind ≠ .scope) : m.Of s p (ts ++ [t]) where
  classes := h.classes.concat_of_neg hrecord
  enums := h.enums.concat_of_neg (by simpa using henum)
  fields := h.fields.concat_of_neg (by simpa using hvar)
  functions := h.functions.concat_of_neg (by simpa using hfunction)
  typedefs := h.typedefs.concat_of_neg (by simpa using htypedef)
  namespaces := h.namespaces.concat_of_neg (by simpa using hscope)

end Members.Of

/-- What is not visited leaves the trees of a compilation as they are. -/
theorem map_tree_filter_concat {done : List CursorId} {c : CursorId} (hc : ¬s.isVisited c) :
    ((done ++ [c]).filter s.isVisited).map s.unit.tree
      = (done.filter s.isVisited).map s.unit.tree := by
  rw [List.filter_append, List.filter_cons_of_neg hc, List.filter_nil, List.append_nil]

/-- What is neither a body nor an attribute is no part of the node of a function. -/
theorem IsFunctionOf.concat {c : Cursor} {done : List CursorTree} {t : CursorTree} {id : NodeId}
    (hm : IsFunctionOf s p c done id) (hblock : (s.unit.cursor t.id).kind ≠ .block)
    (hattr : ¬(s.unit.cursor t.id).kind.isAttribute) :
    IsFunctionOf s p c (done ++ [t]) id := by
  obtain ⟨span, result, parameters, bodies, attributes, hshows, hspan, hresult, hparameters,
    hbodies, hattributes⟩ := hm
  exact ⟨span, result, parameters, bodies, attributes, hshows, hspan, hresult, hparameters,
    hbodies.concat_of_neg (by simpa using hblock), hattributes.concat_of_neg hattr⟩

namespace Leaves

open DeclGraph.Convert

variable (hkeys : s.unit.KeysTellKinds)

include hkeys

section

variable (h : Sound s O p)

include h

/-! ### Types and declarations -/

theorem typeNode {t? : Option TypeId} (hreached : Reached s p (.type t?)) :
    Leaves p (typeNode s t?) fun v p' => Stands s p' t? v ∧ Continues s O ∅ p p' :=
  (Converts.all hkeys _).type h hreached

/-! ### Statements -/

theorem statementNode {t : CursorTree} (ht : InBody s t) (parent : Value) :
    Leaves p (statementNode s parent t.id) fun id p' => p'.made id = some (.statement t) ∧
      IsStatementOf s p' (s.unit.cursor t.id) [] id ∧ p.graph.size ≤ id ∧
      Continues s (insert id O) ∅ p p' := by
  refine .reads_bind (.kindOf _) (.reads_bind (.nameOf _) ((spanOf h _).bind ?_))
  rintro _ p₁ ⟨span, rfl, hspan, h₁, _⟩
  refine add_open h₁.sound (.statement t) rfl fun p₂ keeps h₂ hmade hshows => ?_
  have hsize := h₁.keeps.size_le
  -- the statement stays open: its children are still to come
  have h₁₂ : Continues s (insert p₁.graph.size O) ∅ p p₂ := h₁.trans ⟨keeps.step, h₂⟩
  split_ifs with hexpr
  · refine .reads_bind (.typeOf _) ((typeNode hkeys h₂ (.expression ht hexpr)).bind
      fun type p₃ ⟨htype, h₃⟩ => .setField_bind (.pure ?_))
    have hshows₃ := h₃.keeps.shows (h₂.below _ _ hmade) (notMem_unfilled hmade (by simp)) hshows
    have h₄ := Continues.setField h₃.sound (Set.mem_insert _ O) "type" (by decide) type
    refine ⟨h₃.keeps.made _ _ hmade, ⟨span, type, hshows₃.setField "type" type,
      ((hspan.keep keeps).keep h₃.keeps).keep h₄.keeps, ?_⟩, hsize, (h₁₂.trans h₃).trans_new h₄ ?_⟩
    · rw [if_pos hexpr]
      exact htype.keep h₄.keeps
    · exact fun id heq hlt => absurd hsize (not_le.2 (Set.mem_singleton_iff.1 heq ▸ hlt))
  · refine .reads_bind (.pure _)
      (.pure ⟨hmade, ⟨span, .null, hshows, hspan.keep keeps, ?_⟩, hsize, h₁₂⟩)
    rw [if_neg hexpr]

end

/-! ### Trees of statements -/

theorem statementNodes (h : Sound s O p) {ts : List CursorTree} (hts : ∀ t ∈ ts, InBody s t)
    (parent : Value) :
    Leaves p (statementNodes s parent ts) fun ids p' =>
      List.Forall₂ (fun id t => p'.made id = some (.statement t)) ids ts ∧
      (∀ e ∈ ts.zip ids, IsPending s p' e) ∧ (∀ id ∈ ids, p.graph.size ≤ id) ∧
      Continues s (O ∪ {id | id ∈ ids}) ∅ p p' := by
  induction ts generalizing p O with
  | nil => exact .pure ⟨.nil, by simp, by simp, by simpa using .refl h ∅⟩
  | cons t rest ih =>
    refine (statementNode hkeys h (hts t List.mem_cons_self) parent).bind
      fun id p₁ ⟨hmade, hstatement, hsize, h₁⟩ => ?_
    refine (ih h₁.sound fun t ht => hts t (List.mem_cons_of_mem _ ht)).bind
      fun ids p₂ ⟨hids, hpending, hsizes, h₂⟩ => .pure ?_
    have hstatement₂ := hstatement.keep h₂.keeps (h₁.sound.below _ _ hmade)
      (notMem_unfilled hmade (by simp))
    have hmade₂ := h₂.keeps.made _ _ hmade
    refine ⟨.cons hmade₂ hids, ?_, ?_, ?_⟩
    · rw [List.zip_cons_cons, List.forall_mem_cons]
      exact ⟨⟨hts t List.mem_cons_self, hmade₂, [], hstatement₂⟩, hpending⟩
    · rw [List.forall_mem_cons]
      exact ⟨hsize, fun id hid => h₁.keeps.size_le.trans (hsizes id hid)⟩
    · -- the nodes of all of them are open, in whatever order
      have hO : insert id O ∪ {x | x ∈ ids} = O ∪ {x | x ∈ id :: ids} := by
        ext x
        simp only [Set.mem_union, Set.mem_insert_iff, Set.mem_ofPred_eq, List.mem_cons]
        tauto
      exact hO ▸ h₁.trans h₂

/-- Statements on a stack are complete when the stack is empty. -/
theorem expand {pending : Pending} (h : Sound s (O ∪ pending.ids) p)
    (hpending : ∀ e ∈ pending, IsPending s p e) :
    Leaves p (expand s pending) fun _ p' => Continues s O pending.ids p p' := by
  induction pending using Convert.expand.induct generalizing p with
  | case1 =>
    rw [Convert.expand]
    have hO : O ∪ Pending.ids [] = O := by simp [Pending.ids]
    exact .pure (.refl (hO ▸ h) _)
  | case2 t id rest ih =>
    rw [Convert.expand]
    obtain ⟨⟨hbody, hmade, _, hstatement⟩, hrest⟩ := List.forall_mem_cons.1 hpending
    refine (statementNodes hkeys h (fun _ ht => hbody.inside ht) _).bind
      fun ids p₁ ⟨hids, hzip, hsizes, h₁⟩ => .setField_bind ?_
    have hlt := h.below _ _ hmade
    have hX : id ∉ ∅ ∪ p.unfilled := notMem_unfilled hmade (by simp)
    have hmade₁ := h₁.keeps.made _ _ hmade
    have hid : id ∈ (O ∪ Pending.ids ((t, id) :: rest)) ∪ {x | x ∈ ids} :=
      .inl (.inr List.mem_cons_self)
    have h₂ := Continues.setField h₁.sound hid "children" (by decide) (.nodes ids)
    -- The children are open in place of the statement.
    have hnew : Pending.ids ((t.children.zip ids).reverse ++ rest) =
        {x | x ∈ ids} ∪ Pending.ids rest := by
      have hmap : (t.children.zip ids).map Prod.snd = ids := List.map_snd_zip hids.length_eq.le
      ext x
      simp [Pending.ids, List.map_append, List.map_reverse, hmap]
    have hall : (O ∪ Pending.ids ((t, id) :: rest)) ∪ {x | x ∈ ids} =
        insert id (O ∪ Pending.ids ((t.children.zip ids).reverse ++ rest)) := by
      rw [hnew]
      ext x
      simp only [Pending.ids, List.map_cons, Set.mem_union, Set.mem_insert_iff, Set.mem_ofPred_eq,
        List.mem_cons]
      tauto
    have hstatement₂ : IsStatementOf s (p₁.setField id "children" (.nodes ids))
        (s.unit.cursor t.id) ids id := by
      obtain ⟨span, type, hshows, hspan, htype⟩ := hstatement.keep h₁.keeps hlt hX
      refine ⟨span, type, hshows.setField "children" _, hspan.keep h₂.keeps, ?_⟩
      split_ifs at htype ⊢
      · exact htype.keep h₂.keeps
      · exact htype
    have hsound₂ := (hall ▸ h₂.sound).close fun o ho => by
      obtain rfl := Option.some.inj ((h₂.keeps.made _ _ hmade₁).symm.trans ho)
      exact ⟨ids, hstatement₂, hids.imp fun _ _ => h₂.keeps.made _ _⟩
    have hpending₂ : ∀ e ∈ (t.children.zip ids).reverse ++ rest,
        IsPending s (p₁.setField id "children" (.nodes ids)) e := by
      have keep : ∀ e, e.2 ≠ id → IsPending s p₁ e →
          IsPending s (p₁.setField id "children" (.nodes ids)) e := fun e hne he =>
        he.keep h₁.sound.toConsistent (.setField p₁ id "children" (.nodes ids)) hne
      rintro ⟨t', id'⟩ he
      rcases List.mem_append.1 he with hchild | hold
      · have hmem := List.mem_reverse.1 hchild
        have hsize := hsizes _ (List.of_mem_zip hmem).2
        exact keep _ (hlt.trans_le hsize).ne' (hzip _ hmem)
      · have hpend := hrest _ hold
        by_cases heq : id' = id
        · subst heq
          obtain rfl := Origin.statement.inj (Option.some.inj (hpend.2.1.symm.trans hmade))
          exact ⟨hbody, h₂.keeps.made _ _ hmade₁, ids, hstatement₂⟩
        · exact keep _ heq (hpend.keep h.toConsistent h₁.keeps (notMem_unfilled hpend.2.1 (by simp)))
    refine (ih ids hsound₂ hpending₂).mono fun _ p₃ h₃ => ?_
    have hid' : {id} ⊆ Pending.ids ((t, id) :: rest) :=
      Set.singleton_subset_iff.2 List.mem_cons_self
    refine ((h₁.mono (Set.empty_subset _)).trans (h₂.mono hid')).trans_new h₃ fun x hx hlt' => ?_
    rw [hnew] at hx
    exact hx.elim (fun hmem => absurd (hsizes x hmem) (not_le.2 hlt'))
      fun hmem => List.mem_cons_of_mem _ hmem

theorem addStatement (h : Sound s O p) {t : CursorTree} (ht : InBody s t) (parent : Value) :
    Leaves p (addStatement s parent t) fun id p' =>
      p'.made id = some (.statement t) ∧ Continues s O ∅ p p' := by
  refine (statementNode hkeys h ht parent).bind fun id p₁ ⟨hmade, hstatement, hsize, h₁⟩ => ?_
  have hO : insert id O = O ∪ Pending.ids [(t, id)] := by
    simp [Pending.ids, Set.insert_def, Set.union_def, or_comm]
  refine (expand hkeys (p := p₁) (hO ▸ h₁.sound) ?_).bind fun _ p₂ h₂ => .pure ?_
  · rw [List.forall_mem_singleton]
    exact ⟨ht, hmade, [], hstatement⟩
  · refine ⟨h₂.keeps.made _ _ hmade, h₁.trans_new h₂ fun x hx hlt => ?_⟩
    exact absurd (List.mem_singleton.1 hx ▸ hsize) (not_le.2 hlt)

theorem addStatements (h : Sound s O p) {ts : List CursorTree} (hts : ∀ t ∈ ts, InBody s t)
    (parent : Value) :
    Leaves p (addStatements s parent ts) fun ids p' =>
      List.Forall₂ (fun id t => p'.made id = some (.statement t)) ids ts ∧
      Continues s O ∅ p p' := by
  induction ts generalizing p with
  | nil => exact .pure ⟨.nil, .refl h ∅⟩
  | cons t rest ih =>
    refine (addStatement hkeys h (hts t List.mem_cons_self) parent).bind fun id p₁ ⟨hmade, h₁⟩ => ?_
    refine (ih h₁.sound fun t ht => hts t (List.mem_cons_of_mem _ ht)).bind
      fun ids p₂ ⟨hids, h₂⟩ => .pure ⟨.cons (h₂.keeps.made _ _ hmade) hids, h₁.trans h₂⟩

/-! ### Functions -/

theorem addParameters (h : Sound s O p) {arguments : List CursorId}
    (hreached : ∀ a ∈ arguments, Reached s p (.type (s.unit.cursor a).type?)) (parent : Value) :
    Leaves p (addParameters s parent arguments) fun ids p' =>
      List.Forall₂ (fun id a => p'.made id = some (.parameter (s.unit.cursor a))) ids arguments ∧
      Continues s O ∅ p p' := by
  induction arguments generalizing p with
  | nil => exact .pure ⟨.nil, .refl h ∅⟩
  | cons a rest ih =>
    refine .reads_bind (.nameOf _) (.reads_bind (.typeOf _) ?_)
    refine (typeNode hkeys h (hreached a List.mem_cons_self)).bind fun type p₁ ⟨htype, h₁⟩ => ?_
    refine (spanOf h₁.sound _).bind ?_
    rintro _ p₂ ⟨span, rfl, hspan, h₂, _⟩
    refine add_closed h₂.sound (.parameter (s.unit.cursor a)) rfl (fun p₃ keeps hshows => ?_)
      fun p₃ h₃ hmade => ?_
    · exact ⟨span, type, hshows, hspan.keep keeps, (htype.keep h₂.keeps).keep keeps⟩
    · -- what was reached stays reached while the others are converted
      have h₁₃ := h₁.trans (h₂.trans h₃)
      have hrest : ∀ a ∈ rest, Reached s p₃ (.type (s.unit.cursor a).type?) := fun a ha =>
        (hreached a (List.mem_cons_of_mem _ ha)).mono h₁₃.keeps.made h₁₃.keeps.filled
      exact (ih h₃.sound hrest).bind fun ids p₄ ⟨hids, h₄⟩ =>
        .pure ⟨.cons (h₄.keeps.made _ _ hmade) hids, h₁₃.trans h₄⟩

section Parts

variable {f t : CursorTree} {done : List CursorTree} {id : NodeId}

/-- A body takes the place of the one before it. -/
theorem addBody (h : Sound s O p) (hid : id ∈ O) (hmade : p.made id = some (.function f))
    (hbody : ∀ t' ∈ t.children, InBody s t') (hblock : (s.unit.cursor t.id).kind = .block)
    (hm : IsFunctionOf s p (s.unit.cursor f.id) done id) :
    Leaves p (Convert.addStatements s (.node id) t.children >>= fun ids =>
        Convert.setField id "statements" (.nodes ids)) fun _ p' =>
      IsFunctionOf s p' (s.unit.cursor f.id) (done ++ [t]) id ∧ Continues s O {id} p p' := by
  refine (addStatements hkeys h hbody _).bind fun ids p₁ ⟨hids, h₁⟩ => .setField ?_
  obtain ⟨span, result, parameters, bodies, attributes, hshows, hspan, hresult, hparameters,
    hbodies, hattributes⟩ :=
      hm.keep h₁.keeps (h.below _ _ hmade) (notMem_unfilled hmade (by simp))
  have h₂ := Continues.setField h₁.sound hid "statements" (by decide) (.nodes ids)
  -- the field shows the last body only
  have hlast : (bodies ++ [ids]).getLast?.getD [] = ids := by simp
  refine ⟨⟨span, result, parameters, bodies ++ [ids], attributes, ?_, hspan.keep h₂.keeps,
    hresult.keep h₂.keeps, forall₂_keep h₂.keeps hparameters, ?_, ?_⟩,
    (h₁.mono (Set.empty_subset _)).trans h₂⟩
  · rw [hlast]
    exact hshows.setField "statements" (.nodes ids)
  · exact (hbodies.imp fun _ _ => forall₂_keep h₂.keeps).concat_of_pos (by simp [hblock])
      (forall₂_keep h₂.keeps hids)
  · exact (hattributes.imp fun _ _ => h₂.keeps.made _ _).concat_of_neg (by rw [hblock]; decide)

omit hkeys in
/-- An attribute stands behind those before it. -/
theorem addFunctionAttribute (h : Sound s O p) (hid : id ∈ O)
    (hmade : p.made id = some (.function f)) (hblock : (s.unit.cursor t.id).kind ≠ .block)
    (hattr : (s.unit.cursor t.id).kind.isAttribute)
    (hm : IsFunctionOf s p (s.unit.cursor f.id) done id) :
    Leaves p (Convert.addAttribute (s.unit.cursor t.id) (.node id) >>=
        Convert.append id "attributes") fun _ p' =>
      IsFunctionOf s p' (s.unit.cursor f.id) (done ++ [t]) id ∧ Continues s O {id} p p' := by
  refine (addAttribute h _ _).bind fun x p₁ ⟨hx, h₁⟩ => ?_
  obtain ⟨span, result, parameters, bodies, attributes, hshows, hspan, hresult, hparameters,
    hbodies, hattributes⟩ :=
      hm.keep h₁.keeps (h.below _ _ hmade) (notMem_unfilled hmade (by simp))
  refine (append h₁.sound hid hshows rfl (by decide) (by decide)).mono
    fun _ p₂ ⟨hshows₂, h₂⟩ => ?_
  refine ⟨⟨span, result, parameters, bodies, attributes ++ [x], hshows₂, hspan.keep h₂.keeps,
    hresult.keep h₂.keeps, forall₂_keep h₂.keeps hparameters, ?_, ?_⟩,
    (h₁.mono (Set.empty_subset _)).trans h₂⟩
  · exact (hbodies.imp fun _ _ => forall₂_keep h₂.keeps).concat_of_neg (by simpa using hblock)
  · exact (hattributes.imp fun _ _ => h₂.keeps.made _ _).concat_of_pos hattr (h₂.keeps.made _ _ hx)

/-- All parts of a function, one after another; a further body takes the place of the last one. -/
theorem addFunctionParts (h : Sound s O p) {rest : List CursorTree} (hid : id ∈ O)
    (hmade : p.made id = some (.function f)) (hf : Visited s f)
    (hfunction : (s.unit.cursor f.id).kind = .function) (hrest : ∀ t ∈ rest, t ∈ f.children)
    (hm : IsFunctionOf s p (s.unit.cursor f.id) done id) :
    Leaves p (addFunctionParts s id rest) fun _ p' =>
      IsFunctionOf s p' (s.unit.cursor f.id) (done ++ rest) id ∧ Continues s O {id} p p' := by
  induction rest generalizing p done with
  | nil => exact .pure ⟨by rwa [List.append_nil], .refl h _⟩
  | cons t rest ih =>
    have goOn : ∀ {p₁}, IsFunctionOf s p₁ (s.unit.cursor f.id) (done ++ [t]) id →
        Continues s O {id} p p₁ → Leaves p₁ (Convert.addFunctionParts s id rest) fun _ p' =>
          IsFunctionOf s p' (s.unit.cursor f.id) (done ++ t :: rest) id ∧
            Continues s O {id} p p' := by
      intro p₁ hm₁ h₁
      refine (ih h₁.sound (h₁.keeps.made _ _ hmade)
        (fun t ht => hrest t (List.mem_cons_of_mem _ ht)) hm₁).mono fun _ p₂ ⟨hm₂, h₂⟩ => ⟨?_, h₁.trans h₂⟩
      rwa [List.append_assoc] at hm₂
    refine .reads_bind (.kindOf _) ?_
    split_ifs with hblock hattr
    · have hbody : ∀ t' ∈ t.children, InBody s t' := fun t' ht' =>
        .body hf hfunction (hrest t List.mem_cons_self) hblock ht'
      rw [← bind_assoc]
      exact (addBody hkeys h hid hmade hbody hblock hm).bind fun _ _ ⟨hm₁, h₁⟩ => goOn hm₁ h₁
    · rw [← bind_assoc]
      exact (addFunctionAttribute h hid hmade hblock hattr hm).bind
        fun _ _ ⟨hm₁, h₁⟩ => goOn hm₁ h₁
    · exact .reads_bind (.pure _) (goOn (hm.concat hblock hattr) (.refl h _))

end Parts

theorem addFunction (h : Sound s O p) {f : CursorTree} (hf : Visited s f)
    (hfunction : (s.unit.cursor f.id).kind = .function) (parent : Value) :
    Leaves p (addFunction s f parent) fun id p' =>
      p'.made id = some (.function f) ∧ Continues s O ∅ p p' := by
  refine .reads_bind (.nameOf _) ((typeNode hkeys h (.result hf hfunction)).bind
    fun result p₁ ⟨hresult, h₁⟩ => .reads_bind (.markersOf _ _) ?_)
  refine (spanOf h₁.sound _).bind ?_
  rintro _ p₂ ⟨span, rfl, hspan, h₂, _⟩
  refine add_open h₂.sound (.function f) rfl fun p₃ keeps h₃ hmade hshows => ?_
  have hX₃ : p₂.graph.size ∉ ∅ ∪ p₃.unfilled := notMem_unfilled hmade (by simp)
  refine (addParameters hkeys h₃ (fun a ha => .parameter hf hfunction ha) _).bind
    fun parameters p₄ ⟨hparameters, h₄⟩ => .setField_bind ?_
  have hmem : p₂.graph.size ∈ insert p₂.graph.size O := Set.mem_insert _ _
  have h₄₅ := Continues.setField h₄.sound hmem "parameters" (by decide)
    (.nodes parameters)
  have h₅ := (h₄.mono (Set.empty_subset {p₂.graph.size})).trans h₄₅
  have hshows₄ := h₄.keeps.shows (h₃.below _ _ hmade) hX₃ hshows
  -- with its parameters the node is a function of which no part has been converted
  have hm₅ : IsFunctionOf s _ (s.unit.cursor f.id) [] p₂.graph.size :=
    ⟨span, result, parameters, [], [], hshows₄.setField "parameters" (.nodes parameters),
      (hspan.keep keeps).keep h₅.keeps, ((hresult.keep h₂.keeps).keep keeps).keep h₅.keeps,
      forall₂_keep h₄₅.keeps hparameters, .nil, .nil⟩
  refine (addFunctionParts hkeys h₅.sound hmem (h₅.keeps.made _ _ hmade) hf hfunction
    (fun _ ht => ht) hm₅).bind fun _ p₆ ⟨hm₆, h₅₆⟩ => ?_
  have h₆ := h₅.trans h₅₆
  have hmade₆ := h₆.keeps.made _ _ hmade
  refine .pure ⟨hmade₆, (h₁.trans h₂).trans (.finish keeps le_rfl h₆ fun o ho => ?_)⟩
  obtain rfl := Option.some.inj (hmade₆.symm.trans ho)
  exact hm₆

/-! ### Containers -/

omit hkeys

mutual

/-- What a tree declares is added to a container. -/
theorem visit (hkeys : s.unit.KeysTellKinds) : (t : CursorTree) → ∀ {O p b ts id o},
    Visited s t → Sound s O p → id ∈ O → p.made id = some o →
    (∀ c, o ≠ .declaration c .record) → Holds s p b ts id →
    Leaves p (visit s id t) fun _ p' => Holds s p' b (ts ++ [t]) id ∧ Continues s O {id} p p'
  | .node cursor children, O, p, b, ts, id, o, ht, h, hid, hmade, ho, hm => by
    -- While something is converted, the container stays as it is.
    have keep : ∀ {p₁}, Continues s O ∅ p p₁ → Holds s p₁ b ts id := fun h₁ =>
      hm.keep h₁.keeps (h.below _ _ hmade) (notMem_unfilled hmade ho)
    have grow : ∀ {p₁ m m' name v}, Continues s O ∅ p p₁ →
        m'.Of s p₁ (ts ++ [.node cursor children]) → (b.node m).set name v = b.node m' →
        ∀ p₂, p₂.Shows id ((b.node m).set name v) ∧ Continues s O {id} p₁ p₂ →
        Holds s p₂ b (ts ++ [.node cursor children]) id ∧ Continues s O {id} p p₂ :=
      fun h₁ hm hset p₂ ⟨hshows, h₂⟩ =>
        ⟨⟨_, hset ▸ hshows, hm.keep h₂.keeps⟩, (h₁.mono (Set.empty_subset _)).trans h₂⟩
    have hdeclares : ∀ {k}, (s.unit.cursor cursor).kind.declares? = some k →
        Reached s p (.declaration cursor k) := .visited ht
    rw [Convert.visit]
    refine .reads_bind (.kindOf _) ?_
    split_ifs with hfunction hrecord henum htypedef hvar hscope
    · refine (addFunction hkeys h ht hfunction _).bind fun x p₁ ⟨hx, h₁⟩ => ?_
      obtain ⟨m, hshows, hm⟩ := keep h₁
      exact (append h₁.sound hid hshows (by cases b <;> rfl) (by decide) (by decide)).mono fun _ =>
        grow h₁ (hm.function hfunction hx) (by cases b <;> rfl)
    · refine ((Converts.all hkeys _).record h (hdeclares (if_pos hrecord))).bind
        fun x p₁ ⟨hx, h₁⟩ => ?_
      obtain ⟨m, hshows, hm⟩ := keep h₁
      exact (appendOnce h₁.sound hid hshows (by cases b <;> rfl) (by cases b <;> rfl)
        (by decide) (by decide)).mono fun _ =>
        grow h₁ (hm.record hrecord hx) (by cases b <;> rfl)
    · refine ((Converts.all hkeys _).enum h (hdeclares (by rw [henum]; rfl))).bind
        fun x p₁ ⟨hx, h₁⟩ => ?_
      obtain ⟨m, hshows, hm⟩ := keep h₁
      exact (appendOnce h₁.sound hid hshows (by cases b <;> rfl) (by cases b <;> rfl)
        (by decide) (by decide)).mono fun _ =>
        grow h₁ (hm.enum henum hx) (by cases b <;> rfl)
    · refine ((Converts.all hkeys _).typedef h (hdeclares (by rw [htypedef]; rfl))).bind
        fun x p₁ ⟨hx, h₁⟩ => ?_
      obtain ⟨m, hshows, hm⟩ := keep h₁
      exact (appendOnce h₁.sound hid hshows (by cases b <;> rfl) (by cases b <;> rfl)
        (by decide) (by decide)).mono fun _ =>
        grow h₁ (hm.typedef htypedef hx) (by cases b <;> rfl)
    · refine ((Converts.all hkeys _).field h (.var ht hvar)).bind fun x p₁ ⟨hx, _, h₁⟩ => ?_
      obtain ⟨m, hshows, hm⟩ := keep h₁
      exact (append h₁.sound hid hshows (by cases b <;> rfl) (by decide) (by decide)).mono fun _ =>
        grow h₁ (hm.var hvar hx) (by cases b <;> rfl)
    · refine .reads_bind (.nameOf _) ((spanOf h _).bind ?_)
      rintro _ p₁ ⟨span, rfl, hspan, h₁, _⟩
      refine add_open h₁.sound (.scope (.node cursor children)) rfl
        fun p₂ keeps h₂ hscope' hshows => ?_
      have hmem : p₁.graph.size ∈ insert p₁.graph.size O := Set.mem_insert _ _
      refine (visitAll hkeys children (fun t ht' => ht.inside hscope ht') h₂ hmem hscope' (by simp)
        (b := .scope (s.unit.cursor cursor).spelling span)
        ⟨.none, hshows, .nil, .nil, .nil, .nil, .nil, .nil⟩).bind
        fun _ p₃ ⟨hholds, h₃⟩ => ?_
      have hscope₃ := h₃.keeps.made _ _ hscope'
      have h₁₃ : Continues s O ∅ p p₃ := h₁.trans (.finish keeps le_rfl h₃ fun o ho => by
        obtain rfl := Option.some.inj (hscope₃.symm.trans ho)
        exact ⟨span, hholds, (hspan.keep keeps).keep h₃.keeps⟩)
      obtain ⟨m, hshows, hm⟩ := keep h₁₃
      exact (append h₁₃.sound hid hshows (by cases b <;> rfl) (by decide) (by decide)).mono fun _ =>
        grow h₁₃ (hm.scope hscope hscope₃) (by cases b <;> rfl)
    · obtain ⟨m, hshows, hm⟩ := hm
      exact .pure ⟨⟨m, hshows, hm.other hfunction hrecord henum htypedef hvar hscope⟩, .refl h _⟩

/-- What trees declare is added to a container. -/
theorem visitAll (hkeys : s.unit.KeysTellKinds) : (rest : List CursorTree) → ∀ {O p b ts id o},
    (∀ t ∈ rest, Visited s t) → Sound s O p → id ∈ O → p.made id = some o →
    (∀ c, o ≠ .declaration c .record) → Holds s p b ts id →
    Leaves p (visitAll s id rest) fun _ p' => Holds s p' b (ts ++ rest) id ∧ Continues s O {id} p p'
  | [], O, p, b, ts, id, o, _, h, _, _, _, hm => by
    rw [Convert.visitAll]
    exact .pure ⟨by rwa [List.append_nil], .refl h _⟩
  | t :: rest, O, p, b, ts, id, o, hrest, h, hid, hmade, ho, hm => by
    rw [Convert.visitAll]
    refine (visit hkeys t (hrest t List.mem_cons_self) h hid hmade ho hm).bind
      fun _ p₁ ⟨hm₁, h₁⟩ => ?_
    refine (visitAll hkeys rest (fun t ht => hrest t (List.mem_cons_of_mem _ ht)) h₁.sound hid
      (h₁.keeps.made _ _ hmade) ho hm₁).mono fun _ p₂ ⟨hm₂, h₂⟩ => ⟨?_, h₁.trans h₂⟩
    rwa [List.append_assoc] at hm₂

end

/-! ### Units -/

variable (hkeys : s.unit.KeysTellKinds)

include hkeys

section Top

variable {source : String} {done : List CursorId} {c : CursorId} {id : NodeId}

omit hkeys in
/-- A macro stands behind those before it. -/
theorem addTopMacro (h : Sound s O p) (hid : id ∈ O)
    (hmade : p.made id = some (.compilation source))
    (hdefined : (s.unit.cursor c).kind = .definedMacro)
    (hm : IsCompilationOf s p source done id) :
    Leaves p (Convert.addMacro (s.unit.cursor c) (.node id) >>= Convert.append id "macros")
      fun _ p' => IsCompilationOf s p' source (done ++ [c]) id ∧ Continues s O {id} p p' := by
  refine (addMacro h _ _).bind fun x p₁ ⟨hx, h₁⟩ => ?_
  obtain ⟨remarks, macros, attributes, ⟨m, hshows, hm⟩, hremarks, hmacros, hattributes⟩ :=
    hm.keep h₁.keeps (h.below _ _ hmade) (notMem_unfilled hmade (by simp))
  refine (append h₁.sound hid hshows rfl (by decide) (by decide)).mono
    fun _ p₂ ⟨hshows₂, h₂⟩ => ?_
  refine ⟨⟨remarks, macros ++ [x], attributes, ⟨m, hshows₂, ?_⟩, forall₂_keep h₂.keeps hremarks,
    ?_, ?_⟩, (h₁.mono (Set.empty_subset _)).trans h₂⟩
  · rw [map_tree_filter_concat (by simp [ConversionSetting.isVisited, hdefined])]
    exact hm.keep h₂.keeps
  · exact (hmacros.imp fun _ _ => h₂.keeps.made _ _).concat_of_pos (by simp [hdefined])
      (h₂.keeps.made _ _ hx)
  · exact (hattributes.imp fun _ _ => h₂.keeps.made _ _).concat_of_neg (by rw [hdefined]; decide)

omit hkeys in
/-- An attribute at the top stands behind those before it. -/
theorem addTopAttribute (h : Sound s O p) (hid : id ∈ O)
    (hmade : p.made id = some (.compilation source))
    (hdefined : (s.unit.cursor c).kind ≠ .definedMacro)
    (hattr : (s.unit.cursor c).kind.isAttribute) (hm : IsCompilationOf s p source done id) :
    Leaves p (Convert.addAttribute (s.unit.cursor c) (.node id) >>= Convert.append id "attributes")
      fun _ p' => IsCompilationOf s p' source (done ++ [c]) id ∧ Continues s O {id} p p' := by
  refine (addAttribute h _ _).bind fun x p₁ ⟨hx, h₁⟩ => ?_
  obtain ⟨remarks, macros, attributes, ⟨m, hshows, hm⟩, hremarks, hmacros, hattributes⟩ :=
    hm.keep h₁.keeps (h.below _ _ hmade) (notMem_unfilled hmade (by simp))
  refine (append h₁.sound hid hshows rfl (by decide) (by decide)).mono
    fun _ p₂ ⟨hshows₂, h₂⟩ => ?_
  refine ⟨⟨remarks, macros, attributes ++ [x], ⟨m, hshows₂, ?_⟩, forall₂_keep h₂.keeps hremarks,
    ?_, ?_⟩, (h₁.mono (Set.empty_subset _)).trans h₂⟩
  · rw [map_tree_filter_concat (by simp [ConversionSetting.isVisited, hattr])]
    exact hm.keep h₂.keeps
  · exact (hmacros.imp fun _ _ => h₂.keeps.made _ _).concat_of_neg (by simpa using hdefined)
  · exact (hattributes.imp fun _ _ => h₂.keeps.made _ _).concat_of_pos hattr (h₂.keeps.made _ _ hx)

/-- What is declared at the top is visited. -/
theorem visitTopTree (h : Sound s O p) (hid : id ∈ O)
    (hmade : p.made id = some (.compilation source)) (hkept : c ∈ s.kept)
    (hdefined : (s.unit.cursor c).kind ≠ .definedMacro)
    (hattr : ¬(s.unit.cursor c).kind.isAttribute) (hm : IsCompilationOf s p source done id) :
    Leaves p (Convert.visit s id (s.unit.tree c)) fun _ p' =>
      IsCompilationOf s p' source (done ++ [c]) id ∧ Continues s O {id} p p' := by
  have hvisited : s.isVisited c := by simp [ConversionSetting.isVisited, hdefined, hattr]
  obtain ⟨remarks, macros, attributes, hholds, hremarks, hmacros, hattributes⟩ := hm
  refine (visit hkeys _ (.top hkept hvisited) h hid hmade (by simp) hholds).mono
    fun _ p₁ ⟨hholds₁, h₁⟩ => ?_
  refine ⟨⟨remarks, macros, attributes, ?_, forall₂_keep h₁.keeps hremarks,
    (hmacros.imp fun _ _ => h₁.keeps.made _ _).concat_of_neg (by simpa using hdefined),
    (hattributes.imp fun _ _ => h₁.keeps.made _ _).concat_of_neg hattr⟩, h₁⟩
  rw [List.filter_append, List.filter_cons_of_pos hvisited, List.filter_nil, List.map_append]
  exact hholds₁

/-- What stands at the top is added to a compilation. -/
theorem visitTop (h : Sound s O p) {rest : List CursorId} (hid : id ∈ O)
    (hmade : p.made id = some (.compilation source))
    (hrest : ∀ c ∈ rest, c ∈ s.unit.top) (hm : IsCompilationOf s p source done id) :
    Leaves p (visitTop s id rest) fun _ p' =>
      IsCompilationOf s p' source (done ++ rest.filter s.isKept) id ∧ Continues s O {id} p p' := by
  induction rest generalizing p done with
  | nil => exact .pure ⟨by rwa [List.filter_nil, List.append_nil], .refl h _⟩
  | cons c rest ih =>
    have hrest' : ∀ c ∈ rest, c ∈ s.unit.top := fun c hc => hrest c (List.mem_cons_of_mem _ hc)
    refine .reads_bind (.check _) ?_
    by_cases hkept : Convert.isKept s (s.unit.cursor c).location
    swap
    · rw [if_neg hkept, List.filter_cons_of_neg (p := s.isKept) hkept]
      exact ih h hmade hrest' hm
    rw [if_pos hkept, List.filter_cons_of_pos (p := s.isKept) hkept]
    -- one kept cursor more, and the rest behind it
    have goOn : ∀ {p₁}, IsCompilationOf s p₁ source (done ++ [c]) id → Continues s O {id} p p₁ →
        Leaves p₁ (Convert.visitTop s id rest) fun _ p' =>
          IsCompilationOf s p' source (done ++ c :: rest.filter s.isKept) id ∧
            Continues s O {id} p p' := by
      intro p₁ hm₁ h₁
      refine (ih h₁.sound (h₁.keeps.made _ _ hmade) hrest' hm₁).mono
        fun _ p₂ ⟨hm₂, h₂⟩ => ⟨?_, h₁.trans h₂⟩
      rwa [List.append_assoc] at hm₂
    refine .reads_bind (.kindOf _) ?_
    split_ifs with hdefined hattr
    · rw [← bind_assoc]
      exact (addTopMacro h hid hmade hdefined hm).bind fun _ _ ⟨hm₁, h₁⟩ => goOn hm₁ h₁
    · rw [← bind_assoc]
      exact (addTopAttribute h hid hmade hdefined hattr hm).bind fun _ _ ⟨hm₁, h₁⟩ => goOn hm₁ h₁
    · have htop : c ∈ s.kept := List.mem_filter.2 ⟨hrest c List.mem_cons_self, hkept⟩
      exact (visitTopTree hkeys h hid hmade htop hdefined hattr hm).bind
        fun _ _ ⟨hm₁, h₁⟩ => goOn hm₁ h₁

end Top

omit hkeys in
theorem addRemarks (h : Sound s O p) (remarks : List Remark) :
    Leaves p (remarks.mapM Convert.addRemark) fun ids p' =>
      List.Forall₂ (fun id r => p'.made id = some (.remark r)) ids remarks ∧
      Continues s O ∅ p p' := by
  induction remarks generalizing p with
  | nil => exact .pure ⟨.nil, .refl h ∅⟩
  | cons r rest ih =>
    rw [List.mapM_cons]
    refine (addRemark h r).bind fun id p₁ ⟨hid, h₁⟩ => ?_
    exact (ih h₁.sound).bind fun ids p₂ ⟨hids, h₂⟩ =>
      .pure ⟨.cons (h₂.keeps.made _ _ hid) hids, h₁.trans h₂⟩

theorem convertUnit (h : Sound s O p) (source : String) :
    Leaves p (convertUnit s source) fun id p' =>
      p'.made id = some (.compilation source) ∧ Continues s O ∅ p p' := by
  refine (addRemarks h _).bind fun remarks p₁ ⟨hremarks, h₁⟩ => ?_
  refine add_open h₁.sound (.compilation source) rfl fun p₂ keeps h₂ hmade hshows => ?_
  have hm₂ : IsCompilationOf s p₂ source [] p₁.graph.size :=
    ⟨remarks, [], [], ⟨.none, hshows, .nil, .nil, .nil, .nil, .nil, .nil⟩,
      forall₂_keep keeps hremarks, .nil, .nil⟩
  refine (visitTop hkeys h₂ (Set.mem_insert _ _) hmade (fun _ hc => hc) hm₂).bind
    fun _ p₃ ⟨hm₃, h₃⟩ => .pure ?_
  have hmade₃ := h₃.keeps.made _ _ hmade
  refine ⟨hmade₃, h₁.trans (.finish keeps le_rfl h₃ fun o ho => ?_)⟩
  obtain rfl := Option.some.inj (hmade₃.symm.trans ho)
  exact hm₃

end Leaves

/-- Before a conversion there is nothing to account for. -/
theorem sound_start (s : ConversionSetting) : Sound s ∅ .start where
  below _ _ h := nomatch h
  told _ h := absurd h (Nat.not_lt_zero _)
  types _ _ h := nomatch h
  typed _ _ h := nomatch h
  declarations _ _ h := nomatch h
  declared _ _ _ h := nomatch h
  filled _ _ h := nomatch h
  flagged _ _ h := nomatch h
  mirrors _ _ h := nomatch h
  opened _ h := h.elim

/-- A converted unit can be accounted for: every node mirrors what it was made from. -/
theorem exists_account (hkeys : s.unit.KeysTellKinds) {source : String} {root : NodeId}
    {σ : Conversion} (hrun : (Convert.convertUnit s source).run .start = .ok (root, σ)) :
    ∃ p : Account, p.toConversion = σ ∧ Sound s ∅ p ∧ p.made root = some (.compilation source) := by
  obtain ⟨p, hp, hmade, h⟩ := Leaves.convertUnit hkeys (sound_start s) source root σ hrun
  exact ⟨p, hp, h.sound, hmade⟩

end DeclGraph
