import DeclGraph.Proofs.TranslationUnit.Compilation
import DeclGraph.Proofs.TranslationUnit.Growth

/-!
# Bodies of functions

`IsStatement` and `AreStatements` say by recursion on trees of cursors what the statements of a body
are: each has the data of its own cursor, the statements of the cursors below it as its children in
their order, and the statement that it is in as its parent.  They list the nodes of a body, each
statement before those in it.

The stack of `Convert.expand` completes siblings from the last one to the first, deeper ones before
higher ones.  Still what is below those on the stack comes out as the recursion says, each statement
a node of its own: one pass is `Completes.of_opens`, a whole run `expand_completes`.  So a body is
what the recursion makes it (`addStatements_areStatements`), and it stays so as long as none of its
nodes changes (`AreStatements.keep`).
-/

namespace DeclGraph

open Account

variable {s : ConversionSetting}

/-! ### Types along the way -/

open DeclGraph.Convert in
/-- What happens while a function is converted: nodes are added, fields of functions and statements
are set, and types are converted. -/
inductive Course (s : ConversionSetting) : Conversion → Conversion → Prop
  | refl (σ : Conversion) : Course s σ σ
  | add {σ σ' : Conversion} (h : Course s σ σ') (n : Node) :
      Course s σ { σ' with graph := σ'.graph.add n }
  | setField {σ σ' : Conversion} {id : NodeId} (h : Course s σ σ')
      (hid : (σ'.graph.node id).isCode) (name : String) (v : Value) :
      Course s σ { σ' with graph := σ'.graph.setField id name v }
  | type {σ σ₁ σ₂ : Conversion} {t? : Option TypeId} {v : Value} (h : Course s σ σ₁)
      (hrun : (typeNode s t?).run σ₁ = .ok (v, σ₂)) : Course s σ σ₂

theorem Course.trans {σ σ₁ σ₂ : Conversion} (h : Course s σ σ₁) (h' : Course s σ₁ σ₂) :
    Course s σ σ₂ := by
  induction h' with
  | refl => exact h
  | add _ n ih => exact ih.add n
  | setField _ hid name v ih => exact ih.setField hid name v
  | type _ hrun ih => exact ih.type hrun

/-- There is no type. -/
def TranslationUnit.IsNoType (u : TranslationUnit) (t? : Option TypeId) : Prop :=
  ∀ t ∈ t?, (u.type t).kind.shape = .invalid

/-- Between two conversions a type was converted, and this is what it came to; where there is no
type it came to nothing. -/
def Yields (s : ConversionSetting) (σ σ' : Conversion) (t? : Option TypeId) (v : Value) : Prop :=
  (∃ σ₁ σ₂, Course s σ σ₁ ∧ (Convert.typeNode s t?).run σ₁ = .ok (v, σ₂) ∧ Course s σ₂ σ') ∧
    (s.unit.IsNoType t? → v = .null)

theorem reads_typeNode {t? : Option TypeId} (ht : s.unit.IsNoType t?) :
    Reads (Convert.typeNode s t?) .null := by
  rw [Convert.typeNode]
  cases s.unit.depthLimit with
  | zero =>
    rw [Convert.typeWithin]
    exact .throw _ _
  | succ fuel =>
    cases t? with
    | none =>
      rw [Convert.typeWithin]
      exact .pure _
    | some t =>
      rw [Convert.typeWithin, ht t rfl]
      exact (Reads.check _).bind (.pure _)

namespace Yields

variable {σ σ₁ σ₂ σ' : Conversion} {t? : Option TypeId} {v : Value}

theorem of_run (h : Course s σ σ₁) (hrun : (Convert.typeNode s t?).run σ₁ = .ok (v, σ₂))
    (h' : Course s σ₂ σ') : Yields s σ σ' t? v :=
  ⟨⟨σ₁, σ₂, h, hrun, h'⟩, fun ht => (reads_typeNode ht _ _ _ hrun).1⟩

theorem mono (h : Yields s σ σ₁ t? v) (h' : Course s σ₁ σ₂) : Yields s σ σ₂ t? v := by
  obtain ⟨⟨_, _, hfirst, hrun, hlast⟩, _⟩ := h
  exact of_run hfirst hrun (hlast.trans h')

end Yields

/-! ### What the statements of a body are -/

/-- The node of a place. -/
def SourcePlace.toNode (p : SourcePlace) : Node :=
  .make .location [("file", .text? p.file?), ("line", .int p.line), ("column", .int p.column)]

namespace Graph

theorem node_setField_self (g : Graph) (id : NodeId) (name : String) (v : Value) :
    (g.setField id name v).node id = (g.node id).set name v := by
  rw [node_setField, if_pos rfl]

/-- A value refers to a node that shows where a cursor starts and ends. -/
def ShowsExtent (g : Graph) (c : Cursor) (v : Value) : Prop :=
  ∃ id first last, v = .node id ∧
    g.node id = .make .span [("start", .node first), ("end", .node last)] ∧
    g.node first = c.start.toNode ∧ g.node last = c.stop.toNode

/-- A node shows a statement or an expression. -/
def ShowsStatement (g : Graph) (T : Option TypeId → Value → Prop) (c : Cursor) (parent : Value)
    (children : List NodeId) (id : NodeId) : Prop :=
  ∃ span type, g.node id = .make .statement [("kind", .text c.kind.lowerName),
      ("spelling", .text c.spelling), ("type", type), ("children", .nodes children),
      ("span", span), ("parent", parent)] ∧
    g.ShowsExtent c span ∧ if c.kind.isExpression then T c.type? type else type = .null

end Graph

mutual

/-- A node is the statement of a tree of cursors, and all nodes of this statement. -/
inductive IsStatement (s : ConversionSetting) (g : Graph) (T : Option TypeId → Value → Prop) :
    CursorTree → Value → NodeId → List NodeId → Prop
  | node {c : CursorId} {children : List CursorTree} {parent : Value} {id : NodeId}
      {ids below : List NodeId} (hshows : g.ShowsStatement T (s.unit.cursor c) parent ids id)
      (hbelow : AreStatements s g T children (.node id) ids below) :
      IsStatement s g T (.node c children) parent id (id :: below)

/-- Nodes are the statements of trees of cursors, and all nodes of these statements. -/
inductive AreStatements (s : ConversionSetting) (g : Graph) (T : Option TypeId → Value → Prop) :
    List CursorTree → Value → List NodeId → List NodeId → Prop
  | nil {parent : Value} : AreStatements s g T [] parent [] []
  | cons {t : CursorTree} {rest : List CursorTree} {parent : Value} {id : NodeId}
      {ids all others : List NodeId} (h : IsStatement s g T t parent id all)
      (hrest : AreStatements s g T rest parent ids others) :
      AreStatements s g T (t :: rest) parent (id :: ids) (all ++ others)

end

/-! ### Nodes that stay -/

section

variable {X : Set NodeId} {code : List NodeId} {g g' : Graph}
  {T T' : Option TypeId → Value → Prop} {c : Cursor} {v parent : Value} {id : NodeId}

theorem Graph.lt_size_of_eq_make {k : Kind} {given : List (String × Value)}
    (h : g.node id = .make k given) : id < g.size :=
  lt_size_of_node_ne fun habsent =>
    absurd (congrArg Node.shape (habsent.symm.trans h)) (by simp [Node.make, Node.absent])

/-- A node of a kind that never changes. -/
theorem Graph.Grows.node_eq (h : g.Grows X code g') {k : Kind} {given : List (String × Value)}
    (hnode : g.node id = .make k given) (hk : k.isOpen = false) (hid : id ∉ X) :
    g'.node id = .make k given := by
  refine (h.node id (lt_size_of_eq_make hnode) hid ?_).trans hnode
  rw [hnode]
  exact hk

theorem Graph.ShowsStatement.lt_size {children : List NodeId}
    (h : g.ShowsStatement T c parent children id) : id < g.size := by
  obtain ⟨_, _, hnode, _⟩ := h
  exact lt_size_of_eq_make hnode

theorem Graph.ShowsStatement.isCode {children : List NodeId}
    (h : g.ShowsStatement T c parent children id) : (g.node id).isCode := by
  obtain ⟨_, _, hnode, _⟩ := h
  rw [hnode]
  rfl

variable (h : g.Grows X code g') (hX : ∀ id ∈ X, (g.node id).isCode)

include h hX

theorem Graph.ShowsExtent.keep (hv : g.ShowsExtent c v) : g'.ShowsExtent c v := by
  obtain ⟨id, first, last, rfl, hid, hfirst, hlast⟩ := hv
  have notMem : ∀ {id k given}, g.node id = .make k given → k ∉ [Kind.function, .statement] →
      id ∉ X := fun hnode hk hid => by
    have hcode := hX _ hid
    rw [hnode] at hcode
    simp only [Node.isCode, Node.isKind, Node.make, Bool.or_eq_true, beq_iff_eq,
      Shape.declared.injEq] at hcode
    exact hk (by simpa using hcode)
  exact ⟨id, first, last, rfl, h.node_eq hid rfl (notMem hid (by decide)),
    h.node_eq hfirst rfl (notMem hfirst (by decide)),
    h.node_eq hlast rfl (notMem hlast (by decide))⟩

variable (hT : ∀ t? v, T t? v → T' t? v)

include hT

theorem Graph.ShowsStatement.keep {children : List NodeId}
    (hs : g.ShowsStatement T c parent children id) (hid : id ∉ X) :
    g'.ShowsStatement T' c parent children id := by
  obtain ⟨span, type, hnode, hspan, htype⟩ := hs
  refine ⟨span, type, h.node_eq hnode rfl hid, hspan.keep h hX, ?_⟩
  split_ifs at htype ⊢
  · exact hT _ _ htype
  · exact htype

omit h hX hT in
mutual

/-- A statement stays if none of its nodes changes. -/
theorem IsStatement.keep (h : g.Grows X code g') (hX : ∀ id ∈ X, (g.node id).isCode)
    (hT : ∀ t? v, T t? v → T' t? v) : {t : CursorTree} → {parent : Value} → {id : NodeId} →
    {all : List NodeId} → IsStatement s g T t parent id all → (∀ id ∈ all, id ∉ X) →
    IsStatement s g' T' t parent id all
  | _, _, _, _, .node hshows hbelow, hall =>
    .node (hshows.keep h hX hT (hall _ List.mem_cons_self))
      (AreStatements.keep h hX hT hbelow fun id hid => hall id (List.mem_cons_of_mem _ hid))

/-- Statements stay if none of their nodes changes. -/
theorem AreStatements.keep (h : g.Grows X code g') (hX : ∀ id ∈ X, (g.node id).isCode)
    (hT : ∀ t? v, T t? v → T' t? v) : {ts : List CursorTree} → {parent : Value} →
    {ids : List NodeId} → {all : List NodeId} → AreStatements s g T ts parent ids all →
    (∀ id ∈ all, id ∉ X) → AreStatements s g' T' ts parent ids all
  | _, _, _, _, .nil, _ => .nil
  | _, _, _, _, .cons hs hrest, hall =>
    .cons (IsStatement.keep h hX hT hs fun id hid => hall id (List.mem_append_left _ hid))
      (AreStatements.keep h hX hT hrest fun id hid => hall id (List.mem_append_right _ hid))

end

end

/-! ### Steps of a conversion -/

/-- A conversion goes on: functions and statements are added as listed, and of the nodes that were
there only some change, apart from open ones. -/
structure Proceeds (s : ConversionSetting) (X : Set NodeId) (code : List NodeId) (p p' : Account) :
    Prop where
  course : Course s p.toConversion p'.toConversion
  grows : p.graph.Grows X code p'.graph

/-- The step that follows starts where the first one ended. -/
theorem Leaves.run_bind {α β : Type} {p : Account} {x : Convert α} {f : α → Convert β}
    {R : β → Account → Prop}
    (h : ∀ a p', x.run p.toConversion = .ok (a, p'.toConversion) → Leaves p' (f a) R) :
    Leaves p (x >>= f) R := by
  intro b σ hrun
  rw [StateT.run_bind] at hrun
  obtain ⟨⟨a, σ₁⟩, hxrun, hfrun⟩ := exists_of_bind_eq_ok hrun
  exact h a { p with toConversion := σ₁ } hxrun b σ hfrun

namespace Proceeds

variable {X Y : Set NodeId} {code code' : List NodeId} {p p₁ p₂ : Account}

theorem refl (X : Set NodeId) (p : Account) : Proceeds s X [] p p := ⟨.refl _, .refl X _⟩

theorem trans_of (h : Proceeds s X code p p₁) (h' : Proceeds s Y code' p₁ p₂)
    (hY : ∀ id ∈ Y, id < p.graph.size → id ∈ X) : Proceeds s X (code ++ code') p p₂ :=
  ⟨h.course.trans h'.course, h.grows.trans_of h'.grows fun id hid hlt => .inl (hY id hid hlt)⟩

theorem trans (h : Proceeds s X code p p₁) (h' : Proceeds s X code' p₁ p₂) :
    Proceeds s X (code ++ code') p p₂ := h.trans_of h' fun _ hid _ => hid

theorem mono (h : Proceeds s X code p p₁) (hXY : X ⊆ Y) : Proceeds s Y code p p₁ :=
  ⟨h.course, h.grows.mono hXY⟩

theorem perm (h : Proceeds s X code p p₁) (hcode : code.Perm code') :
    Proceeds s X code' p p₁ := ⟨h.course, h.grows.perm hcode⟩

theorem setField {id : NodeId} (hid : (p.graph.node id).isCode) (hX : id ∈ X) (name : String)
    (v : Value) : Proceeds s X [] p (p.setField id name v) :=
  ⟨(Course.refl _).setField hid name v, .setField _ hX name v⟩

theorem type {t? : Option TypeId} {v : Value}
    (hrun : (Convert.typeNode s t?).run p.toConversion = .ok (v, p₁.toConversion)) :
    Proceeds s X [] p p₁ :=
  ⟨(Course.refl _).type hrun, (Growing.typeNode s t? _ _ _ hrun).mono (Set.empty_subset X)⟩

/-! ### Nodes of statements -/

open DeclGraph.Convert

variable {σ₀ : Conversion}

variable (s) in
theorem add_code (p : Account) {n : Node} (hn : n.isCode) :
    Leaves p (add n) fun id p' => p'.graph.node id = n ∧ Proceeds s ∅ [id] p p' := by
  have hgrows := Graph.Grows.add ∅ p.graph n
  rw [if_pos hn] at hgrows
  exact .add none ⟨Graph.node_add_size _ _, (Course.refl _).add n, hgrows⟩

variable (s) in
theorem add (p : Account) {n : Node} (hn : n.isCode = false) :
    Leaves p (add n) fun id p' => p'.graph.node id = n ∧ Proceeds s ∅ [] p p' := by
  have hgrows := Graph.Grows.add ∅ p.graph n
  rw [if_neg (by simp [hn])] at hgrows
  exact .add none ⟨Graph.node_add_size _ _, (Course.refl _).add n, hgrows⟩

variable (s) in
theorem addPlace (p : Account) (q : SourcePlace) :
    Leaves p (addPlace q) fun id p' => p'.graph.node id = q.toNode ∧ Proceeds s ∅ [] p p' :=
  add s p rfl

variable (s) in
theorem spanOf (p : Account) (c : Cursor) :
    Leaves p (spanOf c) fun v p' => p'.graph.ShowsExtent c v ∧ Proceeds s ∅ [] p p' := by
  refine .reads_bind (.check _) ((addPlace s p c.start).bind fun first p₁ ⟨hfirst, h₁⟩ => ?_)
  refine (addPlace s p₁ c.stop).bind fun last p₂ ⟨hlast, h₂⟩ => ?_
  refine (add s p₂ rfl).bind fun id p₃ ⟨hspan, h₃⟩ => .pure ⟨?_, (h₁.trans h₂).trans h₃⟩
  exact ⟨id, first, last, rfl, hspan,
    (h₂.trans h₃).grows.node_eq hfirst rfl (Set.notMem_empty _),
    h₃.grows.node_eq hlast rfl (Set.notMem_empty _)⟩

/-- A statement without those in it. -/
theorem statementNode (h₀ : Course s σ₀ p.toConversion) (parent : Value) (c : CursorId) :
    Leaves p (statementNode s parent c) fun id p' =>
      p'.graph.ShowsStatement (Yields s σ₀ p'.toConversion) (s.unit.cursor c) parent [] id ∧
      Proceeds s ∅ [id] p p' := by
  refine .reads_bind (.kindOf _) (.reads_bind (.nameOf _) ((spanOf s p _).bind ?_))
  intro span p₁ ⟨hspan, h₁⟩
  refine (add_code s p₁ rfl).bind fun id p₂ ⟨hnode, h₂⟩ => ?_
  have h₁₂ : Proceeds s ∅ [id] p p₂ := h₁.trans h₂
  have hspan₂ := hspan.keep h₂.grows nofun
  split_ifs with hexpr
  · refine .reads_bind (.typeOf _) (.run_bind fun type p₃ hrun => .setField_bind (.pure ?_))
    have h₃ : Proceeds s ∅ [] p₂ p₃ := .type hrun
    have hnode₃ := h₃.grows.node_eq hnode rfl (Set.notMem_empty _)
    have hcode : (p₃.graph.node id).isCode := by rw [hnode₃]; rfl
    have h₄ : Proceeds s {id} [] p₃ (p₃.setField id "type" type) :=
      setField hcode (Set.mem_singleton id) "type" type
    refine ⟨⟨span, type, ?_, ?_, ?_⟩, (h₁₂.trans h₃).trans_of h₄ fun _ heq hlt => ?_⟩
    · rw [Account.setField, Graph.node_setField_self, hnode₃]
      rfl
    · exact (hspan₂.keep h₃.grows nofun).keep h₄.grows (by rintro _ rfl; exact hcode)
    · rw [if_pos hexpr]
      exact .of_run (h₀.trans h₁₂.course) hrun h₄.course
    · -- the type is set in a node that was not there before
      have hid := h₁₂.grows.isNew (List.mem_singleton_self id)
      exact absurd hid (not_le.2 (Set.mem_singleton_iff.1 heq ▸ hlt))
  · refine .reads_bind (.pure _) (.pure ⟨⟨span, .null, hnode, hspan₂, ?_⟩, h₁₂⟩)
    rw [if_neg hexpr]

/-- Statements side by side, without those in them. -/
theorem statementNodes (h₀ : Course s σ₀ p.toConversion) (parent : Value) (ts : List CursorTree) :
    Leaves p (statementNodes s parent ts) fun ids p' =>
      List.Forall₂ (fun t id => p'.graph.ShowsStatement (Yields s σ₀ p'.toConversion)
        (s.unit.cursor t.id) parent [] id) ts ids ∧ Proceeds s ∅ ids p p' := by
  induction ts generalizing p with
  | nil => exact .pure ⟨.nil, .refl ∅ p⟩
  | cons t rest ih =>
    refine (statementNode h₀ parent t.id).bind fun id p₁ ⟨hshows, h₁⟩ => ?_
    refine (ih (h₀.trans h₁.course)).bind fun ids p₂ ⟨hall, h₂⟩ => .pure ⟨?_, h₁.trans h₂⟩
    exact .cons (hshows.keep h₂.grows nofun (fun _ _ h => h.mono h₂.course) nofun) hall

end Proceeds

/-! ### The stack -/

section

open DeclGraph.Convert

variable {σ₀ : Conversion} {X : Set NodeId} {code : List NodeId} {p p₁ : Account}

/-- A statement on the stack: it has a node, and nothing in it has. -/
def IsBare (s : ConversionSetting) (σ₀ : Conversion) (p : Account) (parent : Value)
    (e : CursorTree × NodeId) : Prop :=
  p.graph.ShowsStatement (Yields s σ₀ p.toConversion) (s.unit.cursor e.1.id) parent [] e.2

/-- The statements on a stack are complete; the nodes of what is in them are told. -/
structure Completes (s : ConversionSetting) (σ₀ : Conversion) (p : Account) (pending : Pending)
    (below : NodeId → List NodeId) (p' : Account) : Prop where
  statements : ∀ e ∈ pending, ∀ parent, IsBare s σ₀ p parent e →
    IsStatement s p'.graph (Yields s σ₀ p'.toConversion) e.1 parent e.2 (e.2 :: below e.2)
  proceeds : Proceeds s pending.ids (pending.flatMap fun e => below e.2) p p'

theorem IsBare.keep {parent : Value} {e : CursorTree × NodeId} (h : IsBare s σ₀ p parent e)
    (h' : Proceeds s X code p p₁) (hX : ∀ id ∈ X, (p.graph.node id).isCode) (he : e.2 ∉ X) :
    IsBare s σ₀ p₁ parent e :=
  Graph.ShowsStatement.keep h'.grows hX (fun _ _ hv => hv.mono h'.course) h he

/-- Nodes one by one with those below them are these nodes together with all those below them. -/
theorem flatMap_cons_perm {α : Type} (l : List α) (f : α → List α) :
    (l.flatMap fun a => a :: f a).Perm (l ++ l.flatMap f) := by
  simpa using (List.flatMap_append_perm l (fun a => [a]) f).symm

theorem AreStatements.of_zip {g : Graph} {T : Option TypeId → Value → Prop}
    {ts : List CursorTree} {ids : List NodeId} {parent : Value} {below : NodeId → List NodeId}
    (hlength : ts.length = ids.length)
    (h : ∀ e ∈ ts.zip ids, IsStatement s g T e.1 parent e.2 (e.2 :: below e.2)) :
    AreStatements s g T ts parent ids (ids.flatMap fun id => id :: below id) := by
  induction ts generalizing ids with
  | nil =>
    obtain rfl := List.eq_nil_of_length_eq_zero hlength.symm
    exact .nil
  | cons t rest ih =>
    cases ids with
    | nil => simp at hlength
    | cons id ids =>
      rw [List.zip_cons_cons, List.forall_mem_cons] at h
      exact .cons h.1 (ih (by simpa using hlength) h.2)

/-- The statements right in one that had none have nodes. -/
structure Opens (s : ConversionSetting) (σ₀ : Conversion) (p : Account) (t : CursorTree)
    (id : NodeId) (ids : List NodeId) (p' : Account) : Prop where
  shows : ∀ parent, IsBare s σ₀ p parent (t, id) →
    p'.graph.ShowsStatement (Yields s σ₀ p'.toConversion) (s.unit.cursor t.id) parent ids id
  length : t.children.length = ids.length
  bare : ∀ e ∈ t.children.zip ids, IsBare s σ₀ p' (.node id) e
  proceeds : Proceeds s {id} ids p p'

section

variable {t : CursorTree} {id : NodeId} {rest : Pending} {ids : List NodeId}

/-- A statement gets the nodes of those right in it as its children. -/
theorem Opens.of_statementNodes (hid : ∃ parent, IsBare s σ₀ p parent (t, id))
    (hids : List.Forall₂ (fun t' id' => IsBare s σ₀ p₁ (.node id) (t', id')) t.children ids)
    (h₁ : Proceeds s ∅ ids p p₁) :
    Opens s σ₀ p t id ids (p₁.setField id "children" (.nodes ids)) := by
  obtain ⟨parent, hparent⟩ := hid
  have hid₁ : IsBare s σ₀ p₁ parent (t, id) := hparent.keep h₁ nofun nofun
  have hX : ∀ i ∈ ({id} : Set NodeId), (p₁.graph.node i).isCode := by
    rintro _ rfl
    exact hid₁.isCode
  have h₂ : Proceeds s {id} [] p₁ (p₁.setField id "children" (.nodes ids)) :=
    .setField hid₁.isCode (Set.mem_singleton id) "children" (.nodes ids)
  refine ⟨fun parent hparent => ?_, hids.length_eq, fun e he => ?_, ?_⟩
  · obtain ⟨span, type, hnode, hspan, htype⟩ : IsBare s σ₀ p₁ parent (t, id) :=
      hparent.keep h₁ nofun nofun
    refine ⟨span, type, ?_, hspan.keep h₂.grows hX, ?_⟩
    · rw [Account.setField, Graph.node_setField_self, hnode]
      rfl
    · split_ifs at htype ⊢
      · exact htype.mono h₂.course
      · exact htype
  · -- the children are new, and the statement is not
    have hne : e.2 ≠ id := fun heq => absurd (h₁.grows.isNew (List.of_mem_zip he).2)
      (not_le.2 (heq ▸ hparent.lt_size))
    exact (List.forall₂_zip hids he).keep h₂ hX hne
  · have h₁₂ := (h₁.mono (Set.empty_subset {id})).trans h₂
    rwa [List.append_nil] at h₁₂

variable (h₁ : Opens s σ₀ p t id ids p₁)
  (hnodup : (((t, id) :: rest).map Prod.snd).Nodup)
  (hbare : ∀ e ∈ (t, id) :: rest, ∃ parent, IsBare s σ₀ p parent e)

theorem ne_of_mem_rest (hnodup : (((t, id) :: rest).map Prod.snd).Nodup)
    {e : CursorTree × NodeId} (he : e ∈ rest) : e.2 ≠ id := by
  have hmem : e.2 ∈ rest.map Prod.snd := List.mem_map_of_mem he
  rintro rfl
  exact (List.nodup_cons.1 hnodup).1 hmem

include h₁

theorem Opens.map_next :
    ((t.children.zip ids).reverse ++ rest).map Prod.snd = ids.reverse ++ rest.map Prod.snd := by
  rw [List.map_append, List.map_reverse, List.map_snd_zip h₁.length.ge]

include hnodup

/-- The nodes below the statement on top of the stack are those of its children and those below
them. -/
theorem Opens.perm_next (below : NodeId → List NodeId) :
    (((t, id) :: rest).flatMap fun e =>
      Function.update below id (ids.flatMap fun i => i :: below i) e.2).Perm
    (ids ++ ((t.children.zip ids).reverse ++ rest).flatMap fun e => below e.2) := by
  -- only the nodes below the statement itself are told anew
  have hrest : (rest.flatMap fun e =>
      Function.update below id (ids.flatMap fun i => i :: below i) e.2) =
        rest.flatMap fun e => below e.2 :=
    List.flatMap_congr fun e he => Function.update_of_ne (ne_of_mem_rest hnodup he) _ _
  have hzip : (t.children.zip ids).flatMap (fun e => below e.2) = ids.flatMap below := by
    rw [← List.flatMap_map Prod.snd below, List.map_snd_zip h₁.length.ge]
  calc (((t, id) :: rest).flatMap fun e =>
      Function.update below id (ids.flatMap fun i => i :: below i) e.2)
    _ = (ids.flatMap fun i => i :: below i) ++ rest.flatMap fun e => below e.2 := by
        rw [List.flatMap_cons, hrest, Function.update_self]
    List.Perm _ ((ids ++ ids.flatMap below) ++ rest.flatMap fun e => below e.2) :=
        (flatMap_cons_perm _ _).append_right _
    _ = ids ++ ((t.children.zip ids).flatMap (fun e => below e.2) ++
          rest.flatMap fun e => below e.2) := by rw [hzip, List.append_assoc]
    List.Perm _ (ids ++ ((t.children.zip ids).reverse ++ rest).flatMap fun e => below e.2) := by
        rw [List.flatMap_append]
        exact (((List.reverse_perm _).symm.flatMap_right _).append_right _).append_left _

include hbare

/-- Another statement on the stack stays as it is. -/
theorem Opens.keep {e : CursorTree × NodeId} (he : e ∈ rest) {parent : Value}
    (hparent : IsBare s σ₀ p parent e) : IsBare s σ₀ p₁ parent e := by
  obtain ⟨_, hid⟩ := hbare _ List.mem_cons_self
  refine hparent.keep h₁.proceeds ?_ (ne_of_mem_rest hnodup he)
  rintro _ rfl
  exact hid.isCode

theorem Opens.nodup_next : (((t.children.zip ids).reverse ++ rest).map Prod.snd).Nodup := by
  rw [h₁.map_next, List.nodup_append]
  refine ⟨List.nodup_reverse.2 h₁.proceeds.grows.nodup, (List.nodup_cons.1 hnodup).2, ?_⟩
  intro i hi j hj
  obtain ⟨e, he, rfl⟩ := List.mem_map.1 hj
  obtain ⟨_, hparent⟩ := hbare e (List.mem_cons_of_mem _ he)
  exact (hparent.lt_size.trans_le (h₁.proceeds.grows.isNew (List.mem_reverse.1 hi))).ne'

theorem Opens.bare_next : ∀ e ∈ (t.children.zip ids).reverse ++ rest,
    ∃ parent, IsBare s σ₀ p₁ parent e := by
  intro e he
  rcases List.mem_append.1 he with hchild | hold
  · exact ⟨_, h₁.bare e (List.mem_reverse.1 hchild)⟩
  · obtain ⟨parent, hparent⟩ := hbare e (List.mem_cons_of_mem _ hold)
    exact ⟨parent, h₁.keep hnodup hbare hold hparent⟩

/-- The statement on top of the stack gives way to those in it. -/
theorem Completes.of_opens {p₃ : Account} {below : NodeId → List NodeId}
    (h₃ : Completes s σ₀ p₁ ((t.children.zip ids).reverse ++ rest) below p₃) :
    Completes s σ₀ p ((t, id) :: rest)
      (Function.update below id (ids.flatMap fun i => i :: below i)) p₃ := by
  have hperm := h₁.perm_next hnodup below
  have hX : ∀ i ∈ Pending.ids ((t.children.zip ids).reverse ++ rest),
      (p₁.graph.node i).isCode := fun i hi => by
    obtain ⟨e, he, rfl⟩ := List.mem_map.1 hi
    obtain ⟨_, hparent⟩ := h₁.bare_next hnodup hbare e he
    exact hparent.isCode
  have hlt : id < p.graph.size := by
    obtain ⟨_, hid⟩ := hbare _ List.mem_cons_self
    exact hid.lt_size
  -- of the nodes on the next stack only the rest of this one was there before
  have hnext : ∀ i ∈ Pending.ids ((t.children.zip ids).reverse ++ rest), i < p.graph.size →
      i ∈ rest.map Prod.snd := fun i hi hold => by
    have hi' : i ∈ ids.reverse ++ rest.map Prod.snd := h₁.map_next ▸ hi
    refine (List.mem_append.1 hi').resolve_left fun hchild => ?_
    exact absurd (h₁.proceeds.grows.isNew (List.mem_reverse.1 hchild)) (not_le.2 hold)
  refine ⟨List.forall_mem_cons.2 ⟨fun parent hparent => ?_, fun e he parent hparent => ?_⟩, ?_⟩
  · have hid : id ∉ Pending.ids ((t.children.zip ids).reverse ++ rest) := fun hid =>
      (List.nodup_cons.1 hnodup).1 (hnext id hid hlt)
    have hshows := (h₁.shows parent hparent).keep h₃.proceeds.grows hX
      (fun _ _ hv => hv.mono h₃.proceeds.course) hid
    rw [Function.update_self]
    -- the statement is complete when its children are, and these come off the stack later
    cases t with
    | node c children =>
      refine .node hshows (.of_zip h₁.length fun e he => ?_)
      exact h₃.statements e (List.mem_append_left _ (List.mem_reverse.2 he)) _ (h₁.bare e he)
  · rw [Function.update_of_ne (ne_of_mem_rest hnodup he)]
    exact h₃.statements e (List.mem_append_right _ he) parent (h₁.keep hnodup hbare he hparent)
  · have hid : {id} ⊆ Pending.ids ((t, id) :: rest) :=
      Set.singleton_subset_iff.2 List.mem_cons_self
    refine ((h₁.proceeds.mono hid).trans_of h₃.proceeds fun i hi hold => ?_).perm hperm.symm
    exact List.mem_cons_of_mem _ (hnext i hi hold)

end

/-- The statements on the stack are completed, each with the nodes below it. -/
theorem expand_completes (h₀ : Course s σ₀ p.toConversion) {pending : Pending}
    (hnodup : (pending.map Prod.snd).Nodup)
    (hbare : ∀ e ∈ pending, ∃ parent, IsBare s σ₀ p parent e) :
    Leaves p (expand s pending) fun _ p' => ∃ below, Completes s σ₀ p pending below p' := by
  induction pending using Convert.expand.induct generalizing p with
  | case1 =>
    rw [Convert.expand]
    exact .pure ⟨fun _ => [], by simp, .refl _ p⟩
  | case2 t id rest ih =>
    rw [Convert.expand]
    refine (Proceeds.statementNodes h₀ (.node id) t.children).bind ?_
    rintro ids p₁ ⟨hids, h₁⟩
    refine .setField_bind ?_
    have h₂ : Opens s σ₀ p t id ids (p₁.setField id "children" (.nodes ids)) :=
      .of_statementNodes (hbare _ List.mem_cons_self) hids h₁
    refine (ih ids (h₀.trans h₂.proceeds.course) (h₂.nodup_next hnodup hbare)
      (h₂.bare_next hnodup hbare)).mono ?_
    rintro _ p₃ ⟨below, h₃⟩
    exact ⟨_, .of_opens h₂ hnodup hbare h₃⟩

/-! ### Whole statements -/

theorem addStatement_isStatement (h₀ : Course s σ₀ p.toConversion) (parent : Value)
    (t : CursorTree) :
    Leaves p (addStatement s parent t) fun id p' => ∃ all,
      IsStatement s p'.graph (Yields s σ₀ p'.toConversion) t parent id all ∧
      Proceeds s ∅ all p p' := by
  refine (Proceeds.statementNode h₀ parent t.id).bind fun id p₁ ⟨hshows, h₁⟩ => ?_
  have hbare : ∀ e ∈ [(t, id)], ∃ parent, IsBare s σ₀ p₁ parent e :=
    List.forall_mem_singleton.2 ⟨parent, hshows⟩
  refine (expand_completes (h₀.trans h₁.course) (by simp) hbare).bind
    fun _ p₂ ⟨below, h₂⟩ => .pure ⟨id :: below id, ?_, ?_⟩
  · exact h₂.statements _ (List.mem_singleton_self _) parent hshows
  · have h₁₂ := h₁.trans_of h₂.proceeds fun i hi hlt => by
      obtain rfl : i = id := List.mem_singleton.1 hi
      exact absurd (h₁.grows.isNew (List.mem_singleton_self i)) (not_le.2 hlt)
    simpa using h₁₂

theorem addStatements_areStatements (h₀ : Course s σ₀ p.toConversion) (parent : Value)
    (ts : List CursorTree) :
    Leaves p (addStatements s parent ts) fun ids p' => ∃ all,
      AreStatements s p'.graph (Yields s σ₀ p'.toConversion) ts parent ids all ∧
      Proceeds s ∅ all p p' := by
  induction ts generalizing p with
  | nil => exact .pure ⟨[], .nil, .refl ∅ p⟩
  | cons t rest ih =>
    refine (addStatement_isStatement h₀ parent t).bind fun id p₁ ⟨all, hall, h₁⟩ => ?_
    refine (ih (h₀.trans h₁.course)).bind fun ids p₂ ⟨others, hothers, h₂⟩ => .pure ?_
    have hall₂ := hall.keep h₂.grows nofun (fun _ _ h => h.mono h₂.course) nofun
    exact ⟨all ++ others, .cons hall₂ hothers, h₁.trans h₂⟩

end

end DeclGraph
