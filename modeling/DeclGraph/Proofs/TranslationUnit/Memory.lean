import DeclGraph.Proofs.TranslationUnit.Growth
import DeclGraph.Proofs.TranslationUnit.Recipes

/-!
# What conversions remember

A conversion remembers the nodes of types and declarations in its tables, and that a record has been
filled in the record itself.  `SameMemory` relates conversions that remember the same.  A step that
publishes nothing is `Quiet`, and a recipe is `Recipe.Calm` if all its own steps are and it enters
no bodies.

`Remembers u σ E` says that what `σ` has published tells exactly of the bodies in `E` that they have
been entered.  So the body of what has no node has not been entered (`Remembers.notMem_of_type`,
`Remembers.notMem_of_none`), nor has that of a record that has not been filled
(`Remembers.notMem_of_unfilled`).
-/

namespace DeclGraph

/-! ### Nodes of declarations -/

namespace Node

/-- Whether the node is that of a record that has been filled. -/
def isFilled (n : Node) : Bool := (n.get "is_definition").isTrue

/-- The node has the shape and the fields of a kind. -/
structure HasKind (n : Node) (k : Kind) : Prop where
  shape : n.shape = .declared k
  names : n.fieldNames = k.fieldNames

theorem hasKind_make (k : Kind) (given : List (String × Value)) : (make k given).HasKind k :=
  ⟨rfl, fieldNames_make k given⟩

theorem HasKind.isKind {n : Node} {k : Kind} (h : n.HasKind k) : n.isKind k := by
  rw [Node.isKind, h.shape, beq_self_eq_true]

/-- A record that is said to be defined has been filled. -/
theorem HasKind.isFilled_set {n : Node} (h : n.HasKind .record) :
    (n.set "is_definition" (.bool true)).isFilled := by
  have hname : "is_definition" ∈ n.fieldNames := by
    rw [h.names]
    decide
  rw [isFilled, get_set_self hname]
  rfl

end Node

/-! ### New nodes of declarations -/

/-- What a step gives is a node with a property. -/
def GivesNode (Q : Node → Prop) (x : Convert NodeId) : Prop :=
  ∀ σ id σ', x.run σ = .ok (id, σ') → Q (σ'.graph.node id)

namespace GivesNode

open DeclGraph.Convert

variable {s : ConversionSetting} {α : Type} {Q : Node → Prop} {x : Convert α}
  {f : α → Convert NodeId}

theorem add {n : Node} (hn : Q n) : GivesNode Q (add n) := by
  intro σ id σ' hrun
  obtain ⟨rfl, rfl⟩ := Prod.mk.inj (Except.ok.inj hrun)
  rw [Graph.node_add_size]
  exact hn

theorem bind (hf : ∀ a, GivesNode Q (f a)) : GivesNode Q (x >>= f) := by
  intro σ id σ' hrun
  rw [StateT.run_bind] at hrun
  obtain ⟨⟨a, σ₁⟩, _, hfrun⟩ := exists_of_bind_eq_ok hrun
  exact hf a _ _ _ hfrun

theorem newRecord (c : Cursor) (parent : Value) :
    GivesNode (fun n => n.HasKind .record ∧ n.isFilled = false) (newRecord s c parent) :=
  .bind fun _ => .bind fun _ => .bind fun _ => .add ⟨Node.hasKind_make _ _, rfl⟩

theorem newEnum (c : Cursor) (parent : Value) : GivesNode (·.HasKind .enum) (newEnum s c parent) :=
  .bind fun _ => .bind fun _ => .bind fun _ => .add (Node.hasKind_make _ _)

theorem newTypedef (c : Cursor) (parent : Value) :
    GivesNode (·.HasKind .typedef) (newTypedef s c parent) :=
  .bind fun _ => .bind fun _ => .bind fun _ => .add (Node.hasKind_make _ _)

end GivesNode

/-! ### Conversions that remember the same -/

/-- Two conversions, of which the second one goes on from the first, remember the same. -/
structure SameMemory (σ σ' : Conversion) : Prop where
  types : σ'.types = σ.types
  declarations : σ'.declarations = σ.declarations
  size_le : σ.graph.size ≤ σ'.graph.size
  shape : ∀ id < σ.graph.size, (σ'.graph.node id).shape = (σ.graph.node id).shape
  names : ∀ id < σ.graph.size, (σ'.graph.node id).fieldNames = (σ.graph.node id).fieldNames
  filled : ∀ id < σ.graph.size, (σ'.graph.node id).isFilled = (σ.graph.node id).isFilled

namespace SameMemory

theorem refl (σ : Conversion) : SameMemory σ σ :=
  ⟨rfl, rfl, le_rfl, fun _ _ => rfl, fun _ _ => rfl, fun _ _ => rfl⟩

theorem trans {σ σ₁ σ₂ : Conversion} (h : SameMemory σ σ₁) (h' : SameMemory σ₁ σ₂) :
    SameMemory σ σ₂ where
  types := h'.types.trans h.types
  declarations := h'.declarations.trans h.declarations
  size_le := h.size_le.trans h'.size_le
  shape id hlt := (h'.shape id (hlt.trans_le h.size_le)).trans (h.shape id hlt)
  names id hlt := (h'.names id (hlt.trans_le h.size_le)).trans (h.names id hlt)
  filled id hlt := (h'.filled id (hlt.trans_le h.size_le)).trans (h.filled id hlt)

/-- Another node at the end. -/
theorem add (σ : Conversion) (n : Node) : SameMemory σ { σ with graph := σ.graph.add n } where
  types := rfl
  declarations := rfl
  size_le := by simp [Graph.add, Graph.size]
  shape id hlt := by rw [Graph.node_add_of_lt _ _ hlt]
  names id hlt := by rw [Graph.node_add_of_lt _ _ hlt]
  filled id hlt := by rw [Graph.node_add_of_lt _ _ hlt]

/-- Another value in a field that does not tell of a definition. -/
theorem setField (σ : Conversion) (id : NodeId) {name : String} (h : name ≠ "is_definition")
    (v : Value) : SameMemory σ { σ with graph := σ.graph.setField id name v } where
  types := rfl
  declarations := rfl
  size_le := by simp [Graph.setField, Graph.modify, Graph.size]
  shape m _ := Graph.shape_setField σ.graph id m name v
  names m _ := by
    rw [Graph.node_setField]
    split_ifs
    · exact Node.fieldNames_set _ _ _
    · rfl
  filled m _ := by
    rw [Graph.node_setField]
    split_ifs
    · exact congrArg Value.isTrue (Node.get_set_of_ne _ (Ne.symm h) v)
    · rfl

end SameMemory

instance : Tolerant SameMemory where
  refl := .refl
  trans := .trans
  add σ n _ := .add σ n

/-- A step that publishes nothing. -/
abbrev Quiet {α : Type} (x : Convert α) : Prop := Respects SameMemory x

namespace Quiet

open DeclGraph.Convert

theorem add (n : Node) : Quiet (add n) := by
  intro σ a σ' hrun
  obtain ⟨rfl, rfl⟩ := Prod.mk.inj (Except.ok.inj hrun)
  exact .add σ n

theorem setField (id : NodeId) {name : String} (h : name ≠ "is_definition") (v : Value) :
    Quiet (setField id name v) := by
  intro σ a σ' hrun
  obtain ⟨rfl, rfl⟩ := Prod.mk.inj (Except.ok.inj hrun)
  exact .setField σ id h v

theorem append (id : NodeId) {name : String} (h : name ≠ "is_definition") (item : NodeId) :
    Quiet (append id name item) := Respects.append (setField id h) item

theorem appendOnce (id : NodeId) {name : String} (h : name ≠ "is_definition") (item : NodeId) :
    Quiet (appendOnce id name item) := Respects.appendOnce (setField id h) item

theorem adopt (id : NodeId) (parent : Value) : Quiet (adopt id parent) :=
  Respects.adopt (setField id (by simp)) parent

end Quiet

/-! ### Recipes that publish nothing themselves -/

/-- The recipe enters no bodies, its own steps publish nothing, and its demands are of a sort. -/
def Recipe.Calm {α : Type} (A : ∀ {β : Type}, Demand β → Prop) : Recipe α → Prop
  | .done _ => True
  | .own x next => Quiet x ∧ ∀ b σ σ', x.run σ = .ok (b, σ') → (next b).Calm A
  | .enter _ _ => False
  | .ask q next => A q ∧ ∀ b, (next b).Calm A

namespace Recipe.Calm

variable {α β : Type} {A : ∀ {β : Type}, Demand β → Prop} {P : Recipe α} {f : α → Recipe β}

theorem pure (a : α) : (pure a : Recipe α).Calm A := trivial

theorem step {x : Convert α} (hx : Quiet x) : (step x).Calm A := ⟨hx, fun _ _ _ _ => trivial⟩

theorem call {q : Demand α} (hq : A q) : (call q).Calm A := ⟨hq, fun _ => trivial⟩

theorem imp {B : ∀ {β : Type}, Demand β → Prop} (hP : P.Calm A)
    (hAB : ∀ (β : Type) (q : Demand β), A q → B q) : P.Calm B := by
  induction P with
  | done a => trivial
  | own x next ih => exact ⟨hP.1, fun b σ σ' hrun => ih b (hP.2 b σ σ' hrun)⟩
  | enter b next ih => exact hP.elim
  | ask q next ih => exact ⟨hAB _ q hP.1, fun b => ih b (hP.2 b)⟩

theorem bind (hP : P.Calm A) (hf : ∀ a, (f a).Calm A) : (P >>= f).Calm A := by
  induction P with
  | done a => exact hf a
  | own x next ih => exact ⟨hP.1, fun b σ σ' hrun => ih b (hP.2 b σ σ' hrun)⟩
  | enter b next ih => exact hP.elim
  | ask q next ih => exact ⟨hP.1, fun b => ih b (hP.2 b)⟩

theorem reads_bind {x : Convert α} {v : α} (hx : Reads x v) (hf : (f v).Calm A) :
    (Recipe.step x >>= f).Calm A := by
  refine ⟨.of_reads hx, fun b σ σ' hrun => ?_⟩
  obtain ⟨rfl, _⟩ := hx _ _ _ hrun
  exact hf

theorem ite {p : Prop} [Decidable p] {Q : Recipe α} (hP : p → P.Calm A) (hQ : ¬p → Q.Calm A) :
    (if p then P else Q).Calm A := by
  split_ifs with hp
  · exact hP hp
  · exact hQ hp

theorem forM {f : α → Recipe Unit} (hf : ∀ a, (f a).Calm A) (as : List α) :
    (as.forM f).Calm A := by
  induction as with
  | nil => exact pure ()
  | cons a rest ih => exact (hf a).bind fun _ => ih

theorem mapM (hf : ∀ a, (f a).Calm A) (as : List α) : (as.mapM f).Calm A := by
  induction as with
  | nil => exact pure []
  | cons a rest ih =>
    rw [List.mapM_cons]
    exact (hf a).bind fun _ => ih.bind fun _ => pure _

end Recipe.Calm

/-! ### Bodies that have been entered -/

/-- What has been published says that a body has been entered: its type has a node, or its
declaration has one, which has been filled if it is a record. -/
def Conversion.Knows (σ : Conversion) : Body → Prop
  | .type key => ∃ id, Entries.get? key σ.types = some id
  | .declaration key => ∃ id, Entries.get? key σ.declarations = some id ∧
      ((σ.graph.node id).isKind .record → (σ.graph.node id).isFilled)

/-- The conversion remembers exactly the bodies that have been entered. -/
structure Remembers (u : TranslationUnit) (σ : Conversion) (E : Finset Body) : Prop where
  knows : ∀ b, σ.Knows b ↔ b ∈ E
  /-- The nodes of declarations are of their kinds. -/
  declared : ∀ key id, Entries.get? key σ.declarations = some id →
    ∃ c k, u.Declares c k ∧ (u.cursor c).key = key ∧ (σ.graph.node id).HasKind k
  /-- Different declarations have different nodes. -/
  apart : ∀ key key' id, Entries.get? key σ.declarations = some id →
    Entries.get? key' σ.declarations = some id → key = key'

theorem Node.HasKind.lt_size {g : Graph} {id : NodeId} {k : Kind} (h : (g.node id).HasKind k) :
    id < g.size := by
  refine Graph.lt_size_of_node_ne fun habsent => ?_
  have hshape := h.shape
  rw [habsent] at hshape
  exact absurd hshape (by simp [Node.absent])

namespace Remembers

variable {u : TranslationUnit} {σ σ' : Conversion} {E : Finset Body}

theorem start (u : TranslationUnit) : Remembers u .start ∅ where
  knows b := by cases b <;> simp [Conversion.Knows, Conversion.start, Entries.get?]
  declared key id h := by simp [Conversion.start, Entries.get?] at h
  apart key key' id h := by simp [Conversion.start, Entries.get?] at h

section

variable (h : Remembers u σ E)

include h

theorem lt_size {key : String} {id : NodeId} (hid : Entries.get? key σ.declarations = some id) :
    id < σ.graph.size := by
  obtain ⟨_, _, _, _, hkind⟩ := h.declared key id hid
  exact hkind.lt_size

/-- What is as before is still remembered, and nothing else. -/
theorem sameMemory (hσ : SameMemory σ σ') : Remembers u σ' E where
  knows b := by
    rw [← h.knows b]
    cases b with
    | type key => simp only [Conversion.Knows, hσ.types]
    | declaration key =>
      simp only [Conversion.Knows, hσ.declarations]
      refine exists_congr fun id => and_congr_right fun hid => ?_
      rw [Node.isKind, Node.isKind, hσ.shape id (h.lt_size hid), hσ.filled id (h.lt_size hid)]
  declared key id hid := by
    rw [hσ.declarations] at hid
    obtain ⟨c, k, hdeclares, hkey, hkind⟩ := h.declared key id hid
    exact ⟨c, k, hdeclares, hkey, (hσ.shape id hkind.lt_size).trans hkind.shape,
      (hσ.names id hkind.lt_size).trans hkind.names⟩
  apart := by
    rw [hσ.declarations]
    exact h.apart

/-- A new node stands for no declaration. -/
theorem get?_ne (hσ : SameMemory σ σ') {id : NodeId} (hnew : σ.graph.size ≤ id) (key : String) :
    Entries.get? key σ'.declarations ≠ some id := by
  rw [hσ.declarations]
  exact fun hid => absurd (h.lt_size hid) (not_lt.2 hnew)

/-- The node of a declaration is of its kind. -/
theorem hasKind (hkeys : u.KeysTellKinds) {c : CursorId} {k : Kind} (hdeclares : u.Declares c k)
    {id : NodeId} (hid : Entries.get? (u.cursor c).key σ.declarations = some id) :
    (σ.graph.node id).HasKind k := by
  obtain ⟨c', k', hdeclares', hkey, hkind⟩ := h.declared _ _ hid
  exact hkeys _ _ _ _ hdeclares' hdeclares hkey ▸ hkind

/-- So it is found by its key alone. -/
theorem filter_isKind (hkeys : u.KeysTellKinds) {c : CursorId} {k : Kind}
    (hdeclares : u.Declares c k) :
    (Entries.get? (u.cursor c).key σ.declarations).filter
      (fun id => (σ.graph.node id).isKind k) = Entries.get? (u.cursor c).key σ.declarations := by
  cases hid : Entries.get? (u.cursor c).key σ.declarations with
  | none => rfl
  | some id => exact Option.filter_some_pos (h.hasKind hkeys hdeclares hid).isKind

/-! ### Bodies that have not been entered -/

/-- The body of a type without a node has not been entered. -/
theorem notMem_of_type {key : TypeKind × String} (hnone : Entries.get? key σ.types = none) :
    .type key ∉ E := by
  rw [← h.knows]
  rintro ⟨id, hid⟩
  exact absurd (hid.symm.trans hnone) (by simp)

/-- The body of a declaration without a node has not been entered. -/
theorem notMem_of_none {key : String} (hnone : Entries.get? key σ.declarations = none) :
    .declaration key ∉ E := by
  rw [← h.knows]
  rintro ⟨id, hid, _⟩
  exact absurd (hid.symm.trans hnone) (by simp)

/-- The body of a record that has not been filled has not been entered. -/
theorem notMem_of_unfilled {key : String} {id : NodeId}
    (hid : Entries.get? key σ.declarations = some id)
    (hkind : (σ.graph.node id).isKind .record) (hunfilled : (σ.graph.node id).isFilled = false) :
    .declaration key ∉ E := by
  rw [← h.knows]
  rintro ⟨id', hid', hfilled⟩
  obtain rfl := Option.some.inj (hid.symm.trans hid')
  exact absurd (hunfilled.symm.trans (hfilled hkind)) (by simp)

/-! ### Bodies that are entered -/

/-- A type that gets a node is entered. -/
theorem enter_type (key : TypeKind × String) (n : Node) :
    Remembers u { σ with graph := σ.graph.add n, types := Entries.put key σ.graph.size σ.types }
      (insert (.type key) E) := by
  have hsame := h.sameMemory (.add σ n)
  refine ⟨fun b => ?_, hsame.declared, hsame.apart⟩
  rw [Finset.mem_insert]
  cases b with
  | declaration key' => exact (hsame.knows (.declaration key')).trans (by simp)
  | type key' =>
    rw [← h.knows, Body.type.injEq]
    by_cases heq : key' = key
    · subst heq
      exact ⟨fun _ => .inl rfl, fun _ => ⟨_, Entries.get?_put_self ..⟩⟩
    · simp only [Conversion.Knows, Entries.get?_put_of_ne heq, heq, false_or]

section

variable {c : CursorId} {k : Kind} (hdeclares : u.Declares c k) {id : NodeId}
  (hkind : (σ.graph.node id).HasKind k)
  (hnew : ∀ key, Entries.get? key σ.declarations ≠ some id)

include hdeclares hkind hnew

/-- A declaration that had no node gets one of its own. -/
theorem put {E' : Finset Body}
    (hE : ∀ b, Conversion.Knows
      { σ with declarations := Entries.put (u.cursor c).key id σ.declarations } b ↔ b ∈ E') :
    Remembers u { σ with declarations := Entries.put (u.cursor c).key id σ.declarations } E' where
  knows := hE
  declared key id' hid' := by
    by_cases heq : key = (u.cursor c).key
    · rw [heq, Entries.get?_put_self] at hid'
      exact ⟨c, k, hdeclares, heq.symm, Option.some.inj hid' ▸ hkind⟩
    · rw [Entries.get?_put_of_ne heq] at hid'
      exact h.declared key id' hid'
  -- two keys of one node: the new node has the new key only
  apart key key' id' hid hid' := by
    by_cases heq : key = (u.cursor c).key <;> by_cases heq' : key' = (u.cursor c).key
    · exact heq.trans heq'.symm
    · rw [heq, Entries.get?_put_self] at hid
      rw [Entries.get?_put_of_ne heq', ← hid] at hid'
      exact absurd hid' (hnew key')
    · rw [heq', Entries.get?_put_self] at hid'
      rw [Entries.get?_put_of_ne heq, ← hid'] at hid
      exact absurd hid (hnew key)
    · rw [Entries.get?_put_of_ne heq] at hid
      rw [Entries.get?_put_of_ne heq'] at hid'
      exact h.apart key key' id' hid hid'

/-- A record that gets a node is not entered yet. -/
theorem declare_record (hnone : Entries.get? (u.cursor c).key σ.declarations = none)
    (hrecord : k = .record) (hunfilled : (σ.graph.node id).isFilled = false) :
    Remembers u { σ with declarations := Entries.put (u.cursor c).key id σ.declarations } E := by
  refine h.put hdeclares hkind hnew fun b => ?_
  rw [← h.knows]
  cases b with
  | type key => exact Iff.rfl
  | declaration key =>
    by_cases heq : key = (u.cursor c).key
    · subst heq
      simp [Conversion.Knows, Entries.get?_put_self, hnone, hunfilled, hrecord ▸ hkind.isKind]
    · simp only [Conversion.Knows, Entries.get?_put_of_ne heq]

/-- An enumeration or a defined type that gets a node is entered. -/
theorem enter_declaration (hk : k ≠ .record) :
    Remembers u { σ with declarations := Entries.put (u.cursor c).key id σ.declarations }
      (insert (.declaration (u.cursor c).key) E) := by
  refine h.put hdeclares hkind hnew fun b => ?_
  rw [Finset.mem_insert, ← h.knows]
  cases b with
  | type key => exact (or_iff_right (by simp)).symm
  | declaration key =>
    by_cases heq : key = (u.cursor c).key
    · subst heq
      have hother : (σ.graph.node id).isKind .record = false := by
        rw [Node.isKind, hkind.shape]
        simpa using hk
      simp [Conversion.Knows, Entries.get?_put_self, hother]
    · rw [Body.declaration.injEq, or_iff_right heq]
      simp only [Conversion.Knows, Entries.get?_put_of_ne heq]

end

/-- A record that is filled is entered, and no other one. -/
theorem enter_record {key : String} {id : NodeId}
    (hid : Entries.get? key σ.declarations = some id) (hkind : (σ.graph.node id).HasKind .record) :
    Remembers u { σ with graph := σ.graph.setField id "is_definition" (.bool true) }
      (insert (.declaration key) E) where
  knows b := by
    rw [Finset.mem_insert, ← h.knows]
    cases b with
    | type key' => exact (or_iff_right (by simp)).symm
    | declaration key' =>
      by_cases heq : key' = key
      · subst heq
        refine iff_of_true ⟨id, hid, fun _ => ?_⟩ (.inl rfl)
        rw [Graph.node_setField, if_pos rfl]
        exact hkind.isFilled_set
      · rw [Body.declaration.injEq, or_iff_right heq]
        refine exists_congr fun id' => and_congr_right fun hid' => ?_
        -- another key belongs to another node, which does not change
        have hne : id ≠ id' := fun hsame => heq (h.apart key' key id' hid' (hsame ▸ hid))
        rw [Graph.node_setField, if_neg hne]
  declared key' id' hid' := by
    obtain ⟨c, k, hdeclares, hkey, hkind'⟩ := h.declared key' id' hid'
    refine ⟨c, k, hdeclares, hkey, (Graph.shape_setField _ _ _ _ _).trans hkind'.shape, ?_⟩
    rw [← hkind'.names, Graph.node_setField]
    split_ifs
    · exact Node.fieldNames_set _ _ _
    · rfl
  apart := h.apart

end

end Remembers

end DeclGraph
