import DeclGraph.Proofs.TranslationUnit.Respects

/-!
# Graphs that grow

Declarations and containers change long after their nodes were added: a declaration when its parent
or its definition is met, a container when something in it is visited.  Every other node is complete
when what it was added for has been converted, and stays as it is from then on (`Graph.Grows`).

The seven functions that convert types and declarations change no nodes but open ones and add
neither functions nor statements: `Growing.typeNode` and its companions.  Nothing is asked of the
unit for this; the keys of its declarations need not tell their kinds.
-/

namespace DeclGraph

/-! ### Nodes that may change -/

/-- The kinds of nodes that may change at any time. -/
def Kind.isOpen : Kind → Bool
  | .record | .enum | .typedef | .scope | .compilation => true
  | _ => false

namespace Node

/-- Whether a node may change at any time. -/
def isOpen (n : Node) : Bool := n.kind?.any Kind.isOpen

theorem isOpen_congr {n n' : Node} (h : n'.shape = n.shape) : n'.isOpen = n.isOpen := by
  rw [isOpen, isOpen, kind?, kind?, h]

theorem isCode_congr {n n' : Node} (h : n'.shape = n.shape) : n'.isCode = n.isCode := by
  rw [isCode, isCode, isKind, isKind, isKind, isKind, h]

theorem isOpen_of_isKind {n : Node} {k : Kind} (h : n.isKind k) (hk : k.isOpen) : n.isOpen := by
  have hshape : n.shape = .declared k := by simpa [isKind] using h
  rw [isOpen, kind?, hshape]
  exact hk

theorem isOpen_eq_false_of_isCode {n : Node} (h : n.isCode) : n.isOpen = false := by
  rw [isCode, Bool.or_eq_true] at h
  have hkind : ∀ k : Kind, n.isKind k → k.isOpen = false → n.isOpen = false := fun k h hk => by
    have hshape : n.shape = .declared k := by simpa [isKind] using h
    rw [isOpen, kind?, hshape]
    exact hk
  exact h.elim (hkind _ · rfl) (hkind _ · rfl)

end Node

/-! ### Graphs that grow -/

namespace Graph

theorem lt_size_of_isCode {g : Graph} {id : NodeId} (h : (g.node id).isCode) : id < g.size :=
  lt_size_of_node_ne fun habsent => by
    rw [habsent] at h
    exact absurd h (by simp [Node.isCode, Node.isKind, Node.absent])

theorem shape_setField (g : Graph) (id m : NodeId) (name : String) (v : Value) :
    ((g.setField id name v).node m).shape = (g.node m).shape := by
  rw [node_setField]
  split_ifs <;> rfl

/-- A graph has become another one: nodes were added, the functions and statements among them are
listed, and of the nodes that were there only some have changed, apart from open ones. -/
structure Grows (X : Set NodeId) (code : List NodeId) (g g' : Graph) : Prop where
  size_le : g.size ≤ g'.size
  shape : ∀ id < g.size, (g'.node id).shape = (g.node id).shape
  node : ∀ id < g.size, id ∉ X → (g.node id).isOpen = false → g'.node id = g.node id
  nodup : code.Nodup
  mem_code : ∀ id, id ∈ code ↔ g.size ≤ id ∧ (g'.node id).isCode

namespace Grows

variable {X Y : Set NodeId} {code code' : List NodeId} {g g' g'' : Graph}

theorem isNew (h : Grows X code g g') {id : NodeId} (hid : id ∈ code) : g.size ≤ id :=
  ((h.mem_code id).1 hid).1

theorem lt_size (h : Grows X code g g') {id : NodeId} (hid : id ∈ code) : id < g'.size :=
  lt_size_of_isCode ((h.mem_code id).1 hid).2

theorem isOpen (h : Grows X code g g') {id : NodeId} (hid : (g.node id).isOpen) :
    (g'.node id).isOpen := by
  have hlt : id < g.size := lt_size_of_node_ne fun habsent => by
    rw [habsent] at hid
    exact absurd hid (by simp [Node.isOpen, Node.kind?, Node.absent])
  rw [Node.isOpen_congr (h.shape id hlt)]
  exact hid

theorem refl (X : Set NodeId) (g : Graph) : Grows X [] g g where
  size_le := le_rfl
  shape _ _ := rfl
  node _ _ _ _ := rfl
  nodup := List.nodup_nil
  mem_code id := by
    simp only [List.not_mem_nil, false_iff, not_and]
    exact fun hle hcode => absurd (lt_size_of_isCode hcode) (not_lt.2 hle)

/-- What changes later may have been new before, or open. -/
theorem trans_of (h : Grows X code g g') (h' : Grows Y code' g' g'')
    (hY : ∀ id ∈ Y, id < g.size → id ∈ X ∨ (g.node id).isOpen) :
    Grows X (code ++ code') g g'' where
  size_le := h.size_le.trans h'.size_le
  shape id hlt := (h'.shape id (hlt.trans_le h.size_le)).trans (h.shape id hlt)
  node id hlt hX hclosed := by
    have hclosed' := (Node.isOpen_congr (h.shape id hlt)).trans hclosed
    -- what is closed has not been open, so the second part leaves it alone too
    have hY' : id ∉ Y := fun hid => (hY id hid hlt).elim hX (by simp [hclosed])
    exact (h'.node id (hlt.trans_le h.size_le) hY' hclosed').trans (h.node id hlt hX hclosed)
  nodup := List.nodup_append.2
    ⟨h.nodup, h'.nodup, fun _ hid _ hid' => ((h.lt_size hid).trans_le (h'.isNew hid')).ne⟩
  mem_code id := by
    rw [List.mem_append, h.mem_code, h'.mem_code]
    constructor
    · rintro (⟨hle, hcode⟩ | ⟨hle, hcode⟩)
      · have hlt := lt_size_of_isCode hcode
        exact ⟨hle, Node.isCode_congr (h'.shape id hlt) ▸ hcode⟩
      · exact ⟨h.size_le.trans hle, hcode⟩
    · rintro ⟨hle, hcode⟩
      rcases lt_or_ge id g'.size with hlt | hge
      · exact .inl ⟨hle, Node.isCode_congr (h'.shape id hlt) ▸ hcode⟩
      · exact .inr ⟨hge, hcode⟩

theorem trans (h : Grows X code g g') (h' : Grows X code' g' g'') :
    Grows X (code ++ code') g g'' :=
  h.trans_of h' fun _ hid _ => .inl hid

/-- What changes counts only as far as it was there and closed. -/
theorem weaken (h : Grows Y code g g')
    (hY : ∀ id ∈ Y, id < g.size → id ∈ X ∨ (g.node id).isOpen) : Grows X code g g' :=
  (refl X g).trans_of h hY

theorem mono (h : Grows Y code g g') (hXY : Y ⊆ X) : Grows X code g g' :=
  h.weaken fun _ hid _ => .inl (hXY hid)

/-- An open node may change. -/
theorem of_isOpen {id : NodeId} (h : Grows {id} code g g') (hid : (g.node id).isOpen) :
    Grows X code g g' :=
  h.weaken fun _ heq _ => .inr (Set.mem_singleton_iff.1 heq ▸ hid)

theorem perm (h : Grows X code g g') (hcode : code.Perm code') : Grows X code' g g' :=
  { h with
    nodup := hcode.nodup_iff.1 h.nodup
    mem_code := fun id => hcode.mem_iff.symm.trans (h.mem_code id) }

theorem isCode_add (g : Graph) (n : Node) (id : NodeId) :
    g.size ≤ id ∧ ((g.add n).node id).isCode ↔ id = g.size ∧ n.isCode := by
  constructor
  · rintro ⟨hle, hcode⟩
    have hlt : id < g.size + 1 := by simpa [Graph.add, size] using lt_size_of_isCode hcode
    obtain rfl : id = g.size := le_antisymm (Nat.lt_succ_iff.1 hlt) hle
    exact ⟨rfl, node_add_size g n ▸ hcode⟩
  · rintro ⟨rfl, hcode⟩
    exact ⟨le_rfl, (node_add_size g n).symm ▸ hcode⟩

/-- Another node at the end. -/
theorem add (X : Set NodeId) (g : Graph) (n : Node) :
    Grows X (if n.isCode then [g.size] else []) g (g.add n) where
  size_le := by simp [Graph.add, size]
  shape id hlt := by rw [node_add_of_lt g n hlt]
  node id hlt _ _ := node_add_of_lt g n hlt
  nodup := by split_ifs <;> simp
  mem_code id := by
    rw [isCode_add]
    split_ifs with hn <;> simp [hn]

theorem setField (g : Graph) {id : NodeId} (hid : id ∈ X) (name : String) (v : Value) :
    Grows X [] g (g.setField id name v) where
  size_le := by simp [Graph.setField, modify, size]
  shape m _ := shape_setField g id m name v
  node m _ hX _ := by
    have hne : id ≠ m := fun heq => hX (heq ▸ hid)
    rw [node_setField, if_neg hne]
  nodup := List.nodup_nil
  mem_code m := by
    rw [Node.isCode_congr (shape_setField g id m name v)]
    exact (refl X g).mem_code m

end Grows

end Graph

/-! ### Steps that let a graph grow -/

/-- The graph has grown, and no functions or statements were added. -/
def Grown (X : Set NodeId) (σ σ' : Conversion) : Prop := σ.graph.Grows X [] σ'.graph

instance (X : Set NodeId) : Tolerant (Grown X) where
  refl σ := .refl X σ.graph
  trans h h' := h.trans h'
  add σ n hn := by
    have h := Graph.Grows.add X σ.graph n
    rwa [hn] at h

/-- A step that changes no nodes but some and open ones, and adds neither functions nor
statements. -/
abbrev Growing {α : Type} (X : Set NodeId) (x : Convert α) : Prop := Respects (Grown X) x

/-- What a step gives is a node that was not there. -/
def GivesNew (x : Convert NodeId) : Prop :=
  ∀ σ id σ', x.run σ = .ok (id, σ') → σ.graph.size ≤ id

namespace Growing

open DeclGraph.Convert

variable {α β : Type} {X Y : Set NodeId} {x : Convert α} {id : NodeId}

theorem mono (hx : Growing X x) (hXY : X ⊆ Y) : Growing Y x :=
  fun σ a σ' hrun => (hx σ a σ' hrun).mono hXY

theorem setField (hid : id ∈ X) (name : String) (v : Value) :
    Growing X (setField id name v) := by
  intro σ a σ' hrun
  obtain ⟨rfl, rfl⟩ := Prod.mk.inj (Except.ok.inj hrun)
  exact .setField _ hid name v

theorem append (hid : id ∈ X) (name : String) (item : NodeId) :
    Growing X (append id name item) := Respects.append (setField hid name) item

theorem appendOnce (hid : id ∈ X) (name : String) (item : NodeId) :
    Growing X (appendOnce id name item) := Respects.appendOnce (setField hid name) item

theorem adopt (hid : id ∈ X) (parent : Value) : Growing X (adopt id parent) :=
  Respects.adopt (setField hid "parent") parent

theorem declare (key : String) (id : NodeId) : Growing X (declare key id) := by
  intro σ a σ' hrun
  obtain ⟨rfl, rfl⟩ := Prod.mk.inj (Except.ok.inj hrun)
  exact .refl X _

theorem addType {key : TypeKind × String} {n : Node} (hn : n.isCode = false) :
    Growing X (addType key n) := by
  intro σ a σ' hrun
  obtain ⟨rfl, rfl⟩ := Prod.mk.inj (Except.ok.inj hrun)
  have h : Grown X σ { σ with graph := σ.graph.add n } := Tolerant.add σ n hn
  exact h

/-- A new node may change. -/
theorem new_bind {x : Convert NodeId} {f : NodeId → Convert β} (hx : Growing ∅ x)
    (hnew : GivesNew x) (hf : ∀ id, Growing {id} (f id)) :
    Growing ∅ (x >>= f) := by
  intro σ b σ' hrun
  rw [StateT.run_bind] at hrun
  obtain ⟨⟨id, σ₁⟩, hxrun, hfrun⟩ := exists_of_bind_eq_ok hrun
  refine (hx _ _ _ hxrun).trans_of (hf id _ _ _ hfrun) fun id' heq hlt => ?_
  exact absurd (hnew _ _ _ hxrun) (not_le.2 (Set.mem_singleton_iff.1 heq ▸ hlt))

/-- The node of a declaration may change, whether it was there or is new. -/
theorem declared_bind {key : String} {k : Kind} (hk : k.isOpen) {f : Option NodeId → Convert β}
    (hsome : ∀ id, Growing {id} (f (some id))) (hnone : Growing ∅ (f none)) :
    Growing ∅ (declared? key k >>= f) := by
  intro σ b σ' hrun
  have hrun' : (f ((Entries.get? key σ.declarations).filter
    fun id => (σ.graph.node id).isKind k)).run σ = .ok (b, σ') := hrun
  cases hfound : (Entries.get? key σ.declarations).filter
      fun id => (σ.graph.node id).isKind k with
  | none =>
    rw [hfound] at hrun'
    exact hnone _ _ _ hrun'
  | some id =>
    rw [hfound] at hrun'
    have hkind := (Option.filter_eq_some_iff.1 hfound).2
    exact (hsome id _ _ _ hrun').of_isOpen (Node.isOpen_of_isKind hkind hk)

end Growing

namespace GivesNew

open DeclGraph.Convert

variable {α : Type} {x : Convert α} {f : α → Convert NodeId} {v : α} {s : ConversionSetting}

theorem add (n : Node) : GivesNew (add n) := by
  intro σ id σ' hrun
  obtain ⟨rfl, rfl⟩ := Prod.mk.inj (Except.ok.inj hrun)
  exact le_rfl

theorem addType (key : TypeKind × String) (n : Node) : GivesNew (addType key n) := by
  intro σ id σ' hrun
  obtain ⟨rfl, rfl⟩ := Prod.mk.inj (Except.ok.inj hrun)
  exact le_rfl

theorem reads_bind (hx : Reads x v) (hf : GivesNew (f v)) : GivesNew (x >>= f) := by
  intro σ b σ' hrun
  rw [StateT.run_bind] at hrun
  obtain ⟨⟨a, σ₁⟩, hxrun, hfrun⟩ := exists_of_bind_eq_ok hrun
  obtain ⟨rfl, rfl⟩ := hx _ _ _ hxrun
  exact hf _ _ _ hfrun

theorem spanOf_bind {c : Cursor} {f : Value → Convert NodeId} (hf : ∀ span, GivesNew (f span)) :
    GivesNew (spanOf c >>= f) := by
  intro σ id σ' hrun
  rw [StateT.run_bind] at hrun
  obtain ⟨⟨span, σ₁⟩, hxrun, hfrun⟩ := exists_of_bind_eq_ok hrun
  have h : Growing ∅ (spanOf c) := .spanOf c
  exact (h _ _ _ hxrun).size_le.trans (hf span _ _ _ hfrun)

theorem newRecord (c : Cursor) (parent : Value) : GivesNew (newRecord s c parent) :=
  reads_bind (.kindOf c) (reads_bind (.ownNameOf c) (spanOf_bind fun _ => add _))

theorem newEnum (c : Cursor) (parent : Value) : GivesNew (newEnum s c parent) :=
  reads_bind (.ownNameOf c) (reads_bind (.sizeOf _ c) (spanOf_bind fun _ => add _))

theorem newTypedef (c : Cursor) (parent : Value) : GivesNew (newTypedef s c parent) :=
  reads_bind (.nameOf c) (reads_bind (.sizeOf _ c) (spanOf_bind fun _ => add _))

end GivesNew

/-! ### Types and declarations -/

open DeclGraph.Convert in
/-- Conversions with some fuel let a graph grow. -/
structure AllGrow (s : ConversionSetting) (fuel : Nat) : Prop where
  type : ∀ t?, Growing ∅ (typeWithin s fuel t?)
  newType : ∀ t n, n.isCode = false → Growing ∅ (newTypeWithin s fuel t n)
  record : ∀ c parent, Growing ∅ (recordWithin s fuel c parent)
  member : ∀ id child, Growing {id} (memberWithin s fuel id child)
  enum : ∀ c parent, Growing ∅ (enumWithin s fuel c parent)
  typedef : ∀ c parent, Growing ∅ (typedefWithin s fuel c parent)
  field : ∀ c parent, Growing ∅ (fieldWithin s fuel c parent)

namespace AllGrow

open DeclGraph.Convert

variable {s : ConversionSetting} {fuel : Nat}

theorem zero : AllGrow s 0 where
  type _ := by rw [typeWithin]; exact .throw _
  newType _ _ _ := by rw [newTypeWithin]; exact .throw _
  record _ _ := by rw [recordWithin]; exact .throw _
  member _ _ := by rw [memberWithin]; exact .throw _
  enum _ _ := by rw [enumWithin]; exact .throw _
  typedef _ _ := by rw [typedefWithin]; exact .throw _
  field _ _ := by rw [fieldWithin]; exact .throw _

variable (ih : AllGrow s fuel)

include ih

theorem type_succ (t? : Option TypeId) : Growing ∅ (typeWithin s (fuel + 1) t?) := by
  cases t? with
  | none =>
    rw [typeWithin]
    exact .pure _
  | some t =>
    rw [typeWithin]
    refine .reads_bind (.check _) ?_
    cases (s.unit.type t).kind.shape with
    | invalid => exact .pure _
    | elaborated => exact ih.type _
    | record => exact (ih.record _ _).bind fun _ => .pure _
    | enum => exact (ih.enum _ _).bind fun _ => .pure _
    | typedef => exact (ih.typedef _ _).bind fun _ => .pure _
    | primitive | pointer | array | function | unexposed => exact ih.newType _ _ rfl

theorem fillType (t : CType) (id : NodeId) : Growing {id} (fillType s fuel t id) := by
  have component : ∀ t?, Growing {id} (typeWithin s fuel t?) := fun t? =>
    (ih.type t?).mono (Set.empty_subset _)
  have set : ∀ name v, Growing {id} (Convert.setField id name v) :=
    Growing.setField (Set.mem_singleton id)
  unfold Convert.fillType
  cases t.kind.shape with
  | pointer | array => exact (component _).bind fun _ => set _ _
  | function prototyped =>
    refine (component _).bind fun _ => (set _ _).bind fun _ => .ite ?_ (.pure _)
    refine (set _ _).bind fun _ => .bind (.mapM (fun _ => ?_) _) fun _ => set _ _
    exact (component _).bind fun _ => .add rfl
  | invalid | elaborated | record | enum | typedef | primitive | unexposed => exact .pure _

theorem newType_succ (t : CType) (n : Node) (hn : n.isCode = false) :
    Growing ∅ (newTypeWithin s (fuel + 1) t n) := by
  rw [newTypeWithin_succ]
  refine .reads_bind (.check _) (.converted_bind fun found => ?_)
  cases found with
  | some id => exact .pure _
  | none =>
    refine Growing.new_bind (.addType hn) (.addType _ _) fun id => ?_
    exact (ih.fillType t id).bind fun _ => .pure _

theorem member_succ (id : NodeId) (child : CursorId) :
    Growing {id} (memberWithin s (fuel + 1) id child) := by
  have hid := Set.mem_singleton id
  have hempty : ∅ ⊆ ({id} : Set NodeId) := Set.empty_subset _
  rw [memberWithin]
  refine .reads_bind (.kindOf _) (.ite ?_ (.ite ?_ (.ite ?_ (.ite ?_ (.pure _)))))
  · exact ((ih.field _ _).mono hempty).bind fun _ => Growing.append hid _ _
  · exact ((ih.record _ _).mono hempty).bind fun _ => Growing.appendOnce hid _ _
  · exact ((ih.enum _ _).mono hempty).bind fun _ => Growing.appendOnce hid _ _
  · exact (Respects.addAttribute _ _).bind fun _ => Growing.append hid _ _

theorem fillRecord (c : Cursor) (id : NodeId) : Growing {id} (fillRecord s fuel c id) := by
  have set : ∀ name v, Growing {id} (Convert.setField id name v) :=
    Growing.setField (Set.mem_singleton id)
  have fill : Growing {id} (do
      Convert.setField id "is_definition" (.bool true)
      Convert.setField id "size_of" (← sizeOf s.unit c)
      Convert.setField id "span" (← spanOf c)
      c.children.forM (memberWithin s fuel id)
      return id) := by
    refine (set _ _).bind fun _ => .reads_bind (.sizeOf _ c) ((set _ _).bind fun _ => ?_)
    refine (Respects.spanOf c).bind fun _ => (set _ _).bind fun _ => ?_
    exact (Respects.forM (ih.member id) _).bind fun _ => .pure _
  exact .node_bind fun _ => .ite (.pure _) fill

theorem record_succ (c : CursorId) (parent : Value) :
    Growing ∅ (recordWithin s (fuel + 1) c parent) := by
  rw [recordWithin_succ]
  refine .reads_bind (.keyOf _) (Growing.declared_bind rfl (fun id => ?_) ?_)
  · exact (Growing.adopt (Set.mem_singleton id) _).bind fun _ => ih.fillRecord _ id
  · refine Growing.new_bind (.newRecord _ _) (.newRecord _ _) fun id => ?_
    exact (Growing.declare _ _).bind fun _ => ih.fillRecord _ id

theorem enum_succ (c : CursorId) (parent : Value) :
    Growing ∅ (enumWithin s (fuel + 1) c parent) := by
  rw [enumWithin_succ]
  refine .reads_bind (.keyOf _) (Growing.declared_bind rfl (fun id => ?_) ?_)
  · exact (Growing.adopt (Set.mem_singleton id) _).bind fun _ => .pure _
  · refine Growing.new_bind (.newEnum _ _) (.newEnum _ _) fun id => ?_
    refine (Growing.declare _ _).bind fun _ => ?_
    have set : ∀ name v, Growing {id} (Convert.setField id name v) :=
      Growing.setField (Set.mem_singleton id)
    refine ((ih.type _).mono (Set.empty_subset _)).bind fun _ => (set _ _).bind fun _ => ?_
    exact (Respects.forM (.addItem (set "items")) _).bind fun _ => .pure _

theorem typedef_succ (c : CursorId) (parent : Value) :
    Growing ∅ (typedefWithin s (fuel + 1) c parent) := by
  rw [typedefWithin]
  refine .reads_bind (.keyOf _) (Growing.declared_bind rfl (fun id => ?_) ?_)
  · exact (Growing.adopt (Set.mem_singleton id) _).bind fun _ => .pure _
  · refine Growing.new_bind (.newTypedef _ _) (.newTypedef _ _) fun id => ?_
    refine (Growing.declare _ _).bind fun _ => ?_
    refine ((ih.type _).mono (Set.empty_subset _)).bind fun _ => ?_
    exact (Growing.setField (Set.mem_singleton id) _ _).bind fun _ => .pure _

theorem field_succ (c : CursorId) (parent : Value) :
    Growing ∅ (fieldWithin s (fuel + 1) c parent) := by
  rw [fieldWithin]
  refine .reads_bind (.nameOf _) (.reads_bind (.typeOf _) ((ih.type _).bind fun _ => ?_))
  refine .reads_bind (.initialValue _ _) ((Respects.spanOf _).bind fun _ => ?_)
  refine Growing.new_bind (.add rfl) (.add _) fun id => ?_
  exact (Respects.addAttributes _ _ _).bind fun _ =>
    (Growing.setField (Set.mem_singleton id) _ _).bind fun _ => .pure _

omit ih in
theorem all (s : ConversionSetting) (fuel : Nat) : AllGrow s fuel := by
  induction fuel with
  | zero => exact .zero
  | succ fuel ih =>
    exact {
      type := ih.type_succ
      newType := ih.newType_succ
      record := ih.record_succ
      member := ih.member_succ
      enum := ih.enum_succ
      typedef := ih.typedef_succ
      field := ih.field_succ }

end AllGrow

namespace Growing

open DeclGraph.Convert

variable (s : ConversionSetting)

theorem typeNode (t? : Option TypeId) : Growing ∅ (typeNode s t?) := (AllGrow.all s _).type t?

theorem recordNode (c : CursorId) (parent : Value) : Growing ∅ (recordNode s c parent) :=
  (AllGrow.all s _).record c parent

theorem enumNode (c : CursorId) (parent : Value) : Growing ∅ (enumNode s c parent) :=
  (AllGrow.all s _).enum c parent

theorem typedefNode (c : CursorId) (parent : Value) : Growing ∅ (typedefNode s c parent) :=
  (AllGrow.all s _).typedef c parent

theorem fieldNode (c : CursorId) (parent : Value) : Growing ∅ (fieldNode s c parent) :=
  (AllGrow.all s _).field c parent

end Growing

end DeclGraph
