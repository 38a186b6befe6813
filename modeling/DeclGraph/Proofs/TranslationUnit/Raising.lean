import DeclGraph.Proofs.TranslationUnit.Families

/-!
# Conversions and families

A conversion may be interrupted by others before a declaration that has got a parent is listed by
it.  `Graph.Raises P g g'` says that a graph has become another one in which all declarations are
listed by the ones that they are in, apart from those that `P` awaits, and that no node has lost its
kind or its parent on the way.  A conversion of a record, an enumeration or a defined type with a
given parent leaves a node that has some parent, which awaits it (`Graph.Entrusts`), and the step
that follows lists it where it was asked for (`Entrusts.appendOnce`).

The functions that convert types and declarations are taken together, by induction on the fuel
(`AllRaise`), then statements, functions, and what stands in containers.  Nothing is asked of the
unit for this; the keys of its declarations need not tell their kinds.
-/

namespace DeclGraph

namespace Graph

/-- A graph has become another one without taking kinds or parents from nodes, and every declaration
is listed by the one that it is in, or awaited. -/
structure Raises (P : Set (NodeId × NodeId)) (g g' : Graph) : Prop where
  abides : g.Abides g'
  families : g'.Families P

/-- A graph has become another one, in which a node of a kind has the given parent or another one,
if one was given, and is awaited by it. -/
structure Entrusts (P : Set (NodeId × NodeId)) (parent? : Option NodeId) (k : Kind) (id : NodeId)
    (g g' : Graph) : Prop extends g.Raises (awaiting P parent? id) g' where
  kind : (g'.node id).isKind k
  parent : parent?.isSome → ∃ r, g'.parent id = .node r

namespace Raises

open DeclGraph.Convert

variable {s : ConversionSetting} {g₀ : Graph} {P : Set (NodeId × NodeId)} {p : Account}
  {k : Kind} {given : List (String × Value)} {id item q : NodeId} {name : String} {v : Value}

theorem refl {g : Graph} (h : g.Families P) : g.Raises P g := ⟨.refl g, h⟩

theorem trans {g g' : Graph} {Q : Set (NodeId × NodeId)} (h : g₀.Raises Q g) (h' : g.Raises P g') :
    g₀.Raises P g' := ⟨h.abides.trans h'.abides, h'.families⟩

/-- From here on. -/
theorem here {g : Graph} (h : g₀.Raises P g) : g.Raises P g := refl h.families

variable (h : g₀.Raises P p.graph)

include h

/-! ### Nodes that are added -/

/-- A new node of a kind, with the parent that was given. -/
theorem addOf (hbare : (Node.make k given).IsBare) (hk : k.sharedList? = none) :
    Leaves p (Convert.add (Node.make k given)) fun id p' => (p'.graph.node id).isKind k ∧
      g₀.Raises P p'.graph ∧ p'.graph.parent id = (Node.make k given).get "parent" := by
  refine .add none ⟨?_, ⟨h.abides.trans (.add _ _), h.families.add hbare fun hsome => ?_⟩, ?_⟩
  · exact (congrArg (·.isKind k) (Graph.node_add_size _ _)).trans (Node.isKind_make.2 rfl)
  · exact absurd hsome (by simp [hk])
  · exact congrArg (·.get "parent") (Graph.node_add_size _ _)

theorem add (hbare : (Node.make k given).IsBare) (hk : k.sharedList? = none) :
    Leaves p (Convert.add (Node.make k given)) fun id p' =>
      g₀.Raises P p'.graph ∧ p'.graph.parent id = (Node.make k given).get "parent" :=
  (h.addOf hbare hk).mono fun _ _ => And.right

theorem addType {key : TypeKind × String} (hbare : (Node.make k given).IsBare)
    (hk : k.sharedList? = none) :
    Leaves p (Convert.addType key (.make k given)) fun _ p' => g₀.Raises P p'.graph := by
  refine (h.add hbare hk).bind fun id p₁ ⟨h₁, _⟩ a σ hrun => ?_
  obtain ⟨rfl, rfl⟩ := Prod.mk.inj (Except.ok.inj hrun)
  exact ⟨{ p₁ with types := Entries.put key id p₁.types }, rfl, h₁⟩

theorem addPlace (place : SourcePlace) :
    Leaves p (Convert.addPlace place) fun _ p' => g₀.Raises P p'.graph :=
  (h.add (Node.isBare_make _ rfl) rfl).mono fun _ _ => And.left

theorem spanOf (c : Cursor) :
    Leaves p (Convert.spanOf c) fun _ p' => g₀.Raises P p'.graph := by
  refine .reads_bind (.check _) ((h.addPlace _).bind fun _ p₁ h₁ => ?_)
  refine (h₁.addPlace _).bind fun _ p₂ h₂ => ?_
  exact (h₂.add (Node.isBare_make _ rfl) rfl).bind fun _ p₃ h₃ => .pure h₃.1

theorem addAttribute (c : Cursor) (parent : Value) :
    Leaves p (Convert.addAttribute c parent) fun id p' =>
      g₀.Raises P p'.graph ∧ p'.graph.parent id = parent := by
  refine .reads_bind (.kindOf c) (.reads_bind (.nameOf c) ((h.spanOf c).bind fun _ p₁ h₁ => ?_))
  exact h₁.add (Node.isBare_make _ rfl) rfl

theorem addMacro (c : Cursor) (parent : Value) :
    Leaves p (Convert.addMacro c parent) fun id p' =>
      g₀.Raises P p'.graph ∧ p'.graph.parent id = parent := by
  refine .reads_bind (.nameOf c) ((h.spanOf c).bind fun _ p₁ h₁ => ?_)
  refine h₁.add (Node.isBare_make_of _ ?_) rfl
  simp only [List.forall_mem_cons, List.not_mem_nil, false_imp_iff, implies_true, and_true]
  refine ⟨fun hname => absurd hname (by decide), fun _ id => ?_,
    fun hname => absurd hname (by decide), fun hname => absurd hname (by decide),
    fun hname => absurd hname (by decide)⟩
  -- the parameters are a list, but of texts
  split <;> simp [Value.HasNode, Value.items?, Value.null, Value.text]

theorem addRemark (r : Remark) :
    Leaves p (Convert.addRemark r) fun _ p' => g₀.Raises P p'.graph := by
  by_cases hfile : r.location.file?.isSome
  · simp only [Convert.addRemark, if_pos hfile, map_eq_pure_bind, bind_assoc, pure_bind]
    refine (h.addPlace _).bind fun _ p₁ h₁ => ?_
    exact (h₁.add (Node.isBare_make _ rfl) rfl).mono fun _ _ => And.left
  · simp only [Convert.addRemark, if_neg hfile, pure_bind]
    exact (h.add (Node.isBare_make _ rfl) rfl).mono fun _ _ => And.left

theorem addEnumItem (c : Cursor) (parent : NodeId) :
    Leaves p (Convert.addEnumItem s c parent) fun id p' =>
      g₀.Raises P p'.graph ∧ p'.graph.parent id = .node parent := by
  refine .reads_bind (.nameOf c) ((h.spanOf c).bind fun _ p₁ h₁ => ?_)
  exact h₁.add (Node.isBare_make _ rfl) rfl

/-! ### Fields that are set -/

theorem setField (hname : name ∉ containments) (hparent : name ≠ "parent") :
    Leaves p (Convert.setField id name v) fun _ p' => g₀.Raises P p'.graph :=
  .setField ⟨h.abides.trans (.setField hparent), h.families.setField hname hparent⟩

theorem setOwn (hname : name ∈ ownLists) (hv : ∀ m, v.HasNode m → p.graph.parent m = .node id) :
    Leaves p (Convert.setField id name v) fun _ p' => g₀.Raises P p'.graph := by
  have hparent : name ≠ "parent" := fun heq => absurd (heq ▸ hname) (by decide)
  exact .setField ⟨h.abides.trans (.setField hparent), h.families.setOwn hname hv⟩

theorem append (hname : name ∈ ownLists) (hitem : p.graph.parent item = .node id) :
    Leaves p (Convert.append id name item) fun _ p' => g₀.Raises P p'.graph := by
  refine .node_bind (h.setOwn hname fun m hm => ?_)
  rcases Value.hasNode_appended.1 hm with hm | rfl
  · exact h.families.own id name hname m hm
  · exact hitem

theorem adopt (hname : name ∈ k.sharedList?) (hid : (p.graph.node id).isKind k)
    (parent? : Option NodeId) :
    Leaves p (Convert.adopt id (.link parent?)) fun _ p' =>
      g₀.Entrusts P parent? k id p'.graph := by
  refine .node_bind ?_
  -- only a node without a parent takes the one that is given
  rcases h.families.homed id k name hname hid with hnone | ⟨r, hr, hlisted⟩
  · have hnone' : (p.graph.node id).get "parent" = .null := hnone
    rw [hnone']
    refine .setField ⟨⟨h.abides.trans (.adopt hnone), h.families.adopt hnone parent?⟩, ?_, ?_⟩
    · exact (Graph.isKind_setField ..).trans hid
    · intro hsome
      obtain ⟨q, rfl⟩ := Option.isSome_iff_exists.1 hsome
      exact ⟨q, h.families.parent_setField_self hname hid _⟩
  · have hr' : (p.graph.node id).get "parent" = .node r := hr
    rw [hr']
    exact .pure ⟨⟨h.abides, h.families.mono (subset_awaiting P parent? id)⟩, hid, fun _ => ⟨r, hr⟩⟩

end Raises

/-! ### Lists of new nodes -/

/-- Nodes with one parent. -/
def AreIn (g : Graph) (q : NodeId) (ids : List NodeId) : Prop := ∀ id ∈ ids, g.parent id = .node q

theorem AreIn.nil (g : Graph) (q : NodeId) : g.AreIn q [] := fun _ h => absurd h List.not_mem_nil

namespace Raises

open DeclGraph.Convert

variable {s : ConversionSetting} {g₀ : Graph} {P : Set (NodeId × NodeId)} {p : Account}
  {id q : NodeId} {name : String}

/-- One more node with the parent. -/
theorem cons {x : Convert NodeId} {xs : Convert (List NodeId)}
    (hx : Leaves p x fun id p' => g₀.Raises P p'.graph ∧ p'.graph.parent id = .node q)
    (hxs : ∀ {p : Account}, p.graph.Families P →
      Leaves p xs fun ids p' => p.graph.Raises P p'.graph ∧ p'.graph.AreIn q ids) :
    Leaves p (do return (← x) :: (← xs)) fun ids p' =>
      g₀.Raises P p'.graph ∧ p'.graph.AreIn q ids := by
  refine hx.bind fun id p₁ ⟨h₁, hid⟩ => (hxs h₁.families).bind fun ids p₂ ⟨h₂, hids⟩ => ?_
  refine .pure ⟨h₁.trans h₂, fun m hm => ?_⟩
  rcases List.mem_cons.1 hm with rfl | hm
  · exact h₂.abides.parent m q hid
  · exact hids m hm

/-- One step for each member of a list. -/
theorem mapM {α : Type} {f : α → Convert NodeId}
    (hf : ∀ a {g₀ : Graph} {p : Account}, g₀.Raises P p.graph →
      Leaves p (f a) fun id p' => g₀.Raises P p'.graph ∧ p'.graph.parent id = .node q)
    (as : List α) (h : g₀.Raises P p.graph) :
    Leaves p (as.mapM f) fun ids p' => g₀.Raises P p'.graph ∧ p'.graph.AreIn q ids := by
  induction as generalizing g₀ p with
  | nil => exact .pure ⟨h, .nil _ q⟩
  | cons a rest ih =>
    rw [List.mapM_cons]
    exact cons (hf a h) fun hp => ih (refl hp)

theorem addAttributes (h : g₀.Raises P p.graph) (u : TranslationUnit) (children : List CursorId) :
    Leaves p (addAttributes u (.node q) children) fun ids p' =>
      g₀.Raises P p'.graph ∧ p'.graph.AreIn q ids := by
  induction children generalizing g₀ p with
  | nil => exact .pure ⟨h, .nil _ q⟩
  | cons child rest ih =>
    refine .reads_bind (.kindOf _) ?_
    split
    · exact cons (h.addAttribute _ _) fun hp => ih (refl hp)
    · exact ih h

/-- The constants of an enumeration, one after another. -/
theorem addItems (h : g₀.Raises P p.graph) (children : List CursorId) :
    Leaves p (children.forM (addItem s id)) fun _ p' => g₀.Raises P p'.graph := by
  induction children generalizing p with
  | nil => exact .pure h
  | cons child rest ih =>
    refine Leaves.bind (Q := fun _ p' => g₀.Raises P p'.graph) ?_ fun _ p₁ h₁ => ih h₁
    refine .reads_bind (.kindOf _) ?_
    split
    · exact (h.addEnumItem _ id).bind fun _ p₁ ⟨h₁, hparent⟩ => h₁.append (by decide) hparent
    · exact .pure h

/-- An own list may become any list of nodes with the parent. -/
theorem setNodes (h : g₀.Raises P p.graph) (hname : name ∈ ownLists) {ids : List NodeId}
    (hids : p.graph.AreIn id ids) :
    Leaves p (Convert.setField id name (.nodes ids)) fun _ p' => g₀.Raises P p'.graph :=
  h.setOwn hname fun m hm => hids m (Value.hasNode_nodes.1 hm)

end Raises

/-! ### New declarations -/

namespace Raises

open DeclGraph.Convert

variable {s : ConversionSetting} {g₀ : Graph} {P : Set (NodeId × NodeId)} {p : Account}
  {k : Kind} {given : List (String × Value)} {parent? : Option NodeId}

/-- A new node with a parent is awaited by it. -/
theorem addShared (h : g₀.Raises P p.graph) (hbare : (Node.make k given).IsBare)
    (hparent : (Node.make k given).get "parent" = .link parent?) :
    Leaves p (Convert.add (Node.make k given)) fun id p' =>
      g₀.Entrusts P parent? k id p'.graph := by
  have hadded : (p.graph.add (.make k given)).parent p.graph.size = .link parent? := by
    rw [Graph.parent, Graph.node_add_size, hparent]
  refine .add none ⟨⟨h.abides.trans (.add _ _), ?_⟩, ?_, fun hsome => ?_⟩
  · refine (h.families.mono (subset_awaiting P parent? _)).add hbare fun _ => ?_
    rw [hparent]
    cases parent? with
    | none => exact .inl rfl
    | some q => exact .inr ⟨q, rfl, Set.mem_insert _ _⟩
  · exact (congrArg (·.isKind k) (Graph.node_add_size _ _)).trans (Node.isKind_make.2 rfl)
  · obtain ⟨q, rfl⟩ := Option.isSome_iff_exists.1 hsome
    exact ⟨q, hadded⟩

variable (h : g₀.Raises P p.graph) (c : Cursor)

include h

theorem newRecord : Leaves p (newRecord s c (.link parent?)) fun id p' =>
    g₀.Entrusts P parent? .record id p'.graph := by
  refine .reads_bind (.kindOf c) (.reads_bind (.ownNameOf c) ?_)
  exact (h.spanOf c).bind fun _ p₁ h₁ => h₁.addShared (Node.isBare_make _ rfl) rfl

theorem newEnum : Leaves p (newEnum s c (.link parent?)) fun id p' =>
    g₀.Entrusts P parent? .enum id p'.graph := by
  refine .reads_bind (.ownNameOf c) (.reads_bind (.sizeOf _ c) ?_)
  exact (h.spanOf c).bind fun _ p₁ h₁ => h₁.addShared (Node.isBare_make _ rfl) rfl

theorem newTypedef : Leaves p (newTypedef s c (.link parent?)) fun id p' =>
    g₀.Entrusts P parent? .typedef id p'.graph := by
  refine .reads_bind (.nameOf c) (.reads_bind (.sizeOf _ c) ?_)
  exact (h.spanOf c).bind fun _ p₁ h₁ => h₁.addShared (Node.isBare_make _ rfl) rfl

end Raises

namespace Entrusts

variable {g₀ : Graph} {P : Set (NodeId × NodeId)} {parent? : Option NodeId} {k : Kind}
  {id q : NodeId}

/-- What is done after a node has got its parent. -/
theorem trans {g g' : Graph} (h : g₀.Entrusts P parent? k id g)
    (h' : g.Raises (awaiting P parent? id) g') : g₀.Entrusts P parent? k id g' where
  toRaises := h.toRaises.trans h'
  kind := h'.abides.kind id k h.kind
  parent hsome := (h.parent hsome).imp fun r hr => h'.abides.parent id r hr

/-- When the parent that was given lists the node, this is awaited no longer. -/
theorem appendOnce {p : Account} {list : Kind} {name : String}
    (h : g₀.Entrusts P (some q) k id p.graph) (hname : name ∈ k.sharedList?)
    (hq : (p.graph.node q).isKind list) (hlist : name ∈ list.fieldNames) :
    Leaves p (Convert.appendOnce q name id) fun _ p' => g₀.Raises P p'.graph := by
  refine .node_bind ?_
  split
  · next hrefers =>
    exact .pure ⟨h.abides, h.families.settle hname h.kind (Value.refersTo_iff.1 hrefers)⟩
  · refine .setField ⟨h.abides.trans (.setField (Kind.ne_parent_of_sharedList? hname)), ?_⟩
    exact h.families.setShared hname (h.families.names q list hq ▸ hlist) h.kind (h.parent rfl)

end Entrusts

/-- A conversion of a declaration that lists its node where it was asked for. -/
theorem Raises.listing {P : Set (NodeId × NodeId)} {g₀ : Graph} {p : Account} {q : NodeId}
    {k list : Kind} {name : String} {x : Convert NodeId} (h : g₀.Raises P p.graph)
    (hx : Leaves p x fun id p' => p.graph.Entrusts P (some q) k id p'.graph)
    (hname : name ∈ k.sharedList?) (hq : (p.graph.node q).isKind list)
    (hlist : name ∈ list.fieldNames) :
    Leaves p (do Convert.appendOnce q name (← x)) fun _ p' => g₀.Raises P p'.graph :=
  hx.bind fun _ _ h₁ => (h₁.appendOnce hname (h₁.abides.kind q list hq) hlist).mono
    fun _ _ h₂ => h.trans h₂

end Graph

/-! ### Types and declarations -/

open DeclGraph.Convert in
/-- Conversions with some fuel leave every declaration listed by the one that it is in. -/
structure AllRaise (s : ConversionSetting) (fuel : Nat) : Prop where
  type : ∀ {P g₀ p} t?, Graph.Raises P g₀ p.graph →
    Leaves p (typeWithin s fuel t?) fun _ p' => g₀.Raises P p'.graph
  newType : ∀ {P g₀ p k given} t, Graph.Raises P g₀ p.graph → (Node.make k given).IsBare →
    k.sharedList? = none →
    Leaves p (newTypeWithin s fuel t (.make k given)) fun _ p' => g₀.Raises P p'.graph
  record : ∀ {P g₀ p} c parent?, Graph.Raises P g₀ p.graph →
    Leaves p (recordWithin s fuel c (.link parent?)) fun id p' =>
      g₀.Entrusts P parent? .record id p'.graph
  member : ∀ {P g₀ p id} child, Graph.Raises P g₀ p.graph → (p.graph.node id).isKind .record →
    Leaves p (memberWithin s fuel id child) fun _ p' => g₀.Raises P p'.graph
  enum : ∀ {P g₀ p} c parent?, Graph.Raises P g₀ p.graph →
    Leaves p (enumWithin s fuel c (.link parent?)) fun id p' =>
      g₀.Entrusts P parent? .enum id p'.graph
  typedef : ∀ {P g₀ p} c parent?, Graph.Raises P g₀ p.graph →
    Leaves p (typedefWithin s fuel c (.link parent?)) fun id p' =>
      g₀.Entrusts P parent? .typedef id p'.graph
  field : ∀ {P g₀ p} c q, Graph.Raises P g₀ p.graph →
    Leaves p (fieldWithin s fuel c (.node q)) fun id p' =>
      g₀.Raises P p'.graph ∧ p'.graph.parent id = .node q

namespace AllRaise

open DeclGraph.Convert

variable {s : ConversionSetting} {fuel : Nat} {P : Set (NodeId × NodeId)} {g₀ : Graph}
  {p : Account} {id : NodeId}

theorem zero : AllRaise s 0 where
  type _ _ := by rw [typeWithin]; exact .throw _
  newType _ _ _ _ := by rw [newTypeWithin]; exact .throw _
  record _ _ _ := by rw [recordWithin]; exact .throw _
  member _ _ _ := by rw [memberWithin]; exact .throw _
  enum _ _ _ := by rw [enumWithin]; exact .throw _
  typedef _ _ _ := by rw [typedefWithin]; exact .throw _
  field _ _ _ := by rw [fieldWithin]; exact .throw _

variable (ih : AllRaise s fuel)

include ih

theorem type_succ (t? : Option TypeId) (h : g₀.Raises P p.graph) :
    Leaves p (typeWithin s (fuel + 1) t?) fun _ p' => g₀.Raises P p'.graph := by
  cases t? with
  | none =>
    rw [typeWithin]
    exact .pure h
  | some t =>
    rw [typeWithin]
    refine .reads_bind (.check _) ?_
    -- a type gives no parent
    cases (s.unit.type t).kind.shape with
    | invalid => exact .pure h
    | elaborated => exact ih.type _ h
    | record => exact (ih.record _ none h).bind fun _ _ h₁ => .pure h₁.toRaises
    | enum => exact (ih.enum _ none h).bind fun _ _ h₁ => .pure h₁.toRaises
    | typedef => exact (ih.typedef _ none h).bind fun _ _ h₁ => .pure h₁.toRaises
    | primitive | pointer | array | function | unexposed =>
      exact ih.newType _ h (Node.isBare_make _ rfl) rfl

theorem fillType (t : CType) (id : NodeId) (h : g₀.Raises P p.graph) :
    Leaves p (fillType s fuel t id) fun _ p' => g₀.Raises P p'.graph := by
  unfold Convert.fillType
  cases t.kind.shape with
  | pointer | array =>
    exact (ih.type _ h).bind fun _ _ h₁ => h₁.setField (by decide) (by decide)
  | function prototyped =>
    refine (ih.type _ h).bind fun _ p₁ h₁ => ?_
    refine (h₁.setField (by decide) (by decide)).bind fun _ p₂ h₂ => ?_
    split
    · refine (h₂.setField (by decide) (by decide)).bind fun _ p₃ h₃ => ?_
      refine (Graph.Raises.mapM (fun _ => fun h => ?_) _ h₃).bind fun _ p₄ ⟨h₄, hids⟩ =>
        h₄.setNodes (by decide) hids
      exact (ih.type _ h).bind fun _ _ h => h.add (Node.isBare_make _ rfl) rfl
    · exact .pure h₂
  | invalid | elaborated | record | enum | typedef | primitive | unexposed => exact .pure h

theorem newType_succ {k : Kind} {given : List (String × Value)} (t : CType)
    (h : g₀.Raises P p.graph) (hbare : (Node.make k given).IsBare) (hk : k.sharedList? = none) :
    Leaves p (newTypeWithin s (fuel + 1) t (.make k given)) fun _ p' => g₀.Raises P p'.graph := by
  rw [newTypeWithin_succ]
  refine .reads_bind (.check _) (.converted_bind ?_)
  split
  · exact .pure h
  · refine (h.addType hbare hk).bind fun id p₁ h₁ => ?_
    exact (ih.fillType t id h₁).bind fun _ p₂ h₂ => .pure h₂

theorem member_succ (child : CursorId) (h : g₀.Raises P p.graph)
    (hid : (p.graph.node id).isKind .record) :
    Leaves p (memberWithin s (fuel + 1) id child) fun _ p' => g₀.Raises P p'.graph := by
  rw [memberWithin]
  refine .reads_bind (.kindOf _) ?_
  split_ifs
  · refine (ih.field _ id h).bind ?_
    rintro _ p₁ ⟨h₁, hparent⟩
    exact h₁.append (by decide) hparent
  · exact h.listing (ih.record _ (some id) h.here) rfl hid (by decide)
  · exact h.listing (ih.enum _ (some id) h.here) rfl hid (by decide)
  · refine (h.addAttribute _ _).bind ?_
    rintro _ p₁ ⟨h₁, hparent⟩
    exact h₁.append (by decide) hparent
  · exact .pure h

theorem members (children : List CursorId) (h : g₀.Raises P p.graph)
    (hid : (p.graph.node id).isKind .record) :
    Leaves p (children.forM (memberWithin s fuel id)) fun _ p' => g₀.Raises P p'.graph := by
  -- from member to member what is kept is that the node is a record, so each starts from here
  induction children generalizing g₀ p with
  | nil => exact .pure h
  | cons child rest ihrest =>
    refine (ih.member child h.here hid).bind fun _ p₁ h₁ => ?_
    exact (ihrest h₁.here (h₁.abides.kind id _ hid)).mono fun _ _ h₂ => (h.trans h₁).trans h₂

theorem fillRecord {parent? : Option NodeId} (c : Cursor)
    (h : g₀.Entrusts P parent? .record id p.graph) :
    Leaves p (fillRecord s fuel c id) fun id' p' =>
      g₀.Entrusts P parent? .record id' p'.graph := by
  unfold Convert.fillRecord
  refine .node_bind ?_
  split
  · exact .pure h
  -- the record may be awaited all the while that its members are converted
  · refine (h.here.setField (by decide) (by decide)).bind fun _ p₁ h₁ => ?_
    refine .reads_bind (.sizeOf s.unit c) ?_
    refine (h₁.setField (by decide) (by decide)).bind fun _ p₂ h₂ => ?_
    refine (h₂.spanOf c).bind fun _ p₃ h₃ => ?_
    refine (h₃.setField (by decide) (by decide)).bind fun _ p₄ h₄ => ?_
    refine (ih.members _ h₄ (h₄.abides.kind id _ h.kind)).bind fun _ p₅ h₅ => .pure ?_
    exact h.trans h₅

theorem record_succ (c : CursorId) (parent? : Option NodeId) (h : g₀.Raises P p.graph) :
    Leaves p (recordWithin s (fuel + 1) c (.link parent?)) fun id p' =>
      g₀.Entrusts P parent? .record id p'.graph := by
  rw [recordWithin_succ]
  refine .reads_bind (.keyOf _) (.declared_bind ?_)
  split
  · next id hfound =>
    have hkind := (Option.filter_eq_some_iff.1 hfound).2
    exact (h.adopt rfl hkind parent?).bind fun _ p₁ h₁ => ih.fillRecord _ h₁
  · refine (h.newRecord (s := s) _).bind fun id p₁ h₁ => .declare_bind c .record ?_
    exact ih.fillRecord _ h₁

theorem enum_succ (c : CursorId) (parent? : Option NodeId) (h : g₀.Raises P p.graph) :
    Leaves p (enumWithin s (fuel + 1) c (.link parent?)) fun id p' =>
      g₀.Entrusts P parent? .enum id p'.graph := by
  rw [enumWithin_succ]
  refine .reads_bind (.keyOf _) (.declared_bind ?_)
  split
  · next id hfound =>
    have hkind := (Option.filter_eq_some_iff.1 hfound).2
    exact (h.adopt rfl hkind parent?).bind fun _ p₁ h₁ => .pure h₁
  · refine (h.newEnum (s := s) _).bind fun id p₁ h₁ => .declare_bind c .enum ?_
    refine (ih.type (p := p₁.declare _ id c .enum) _ h₁.here).bind fun _ p₂ h₂ => ?_
    refine (h₂.setField (by decide) (by decide)).bind fun _ p₃ h₃ => ?_
    exact (h₃.addItems _).bind fun _ p₄ h₄ => .pure (h₁.trans h₄)

theorem typedef_succ (c : CursorId) (parent? : Option NodeId) (h : g₀.Raises P p.graph) :
    Leaves p (typedefWithin s (fuel + 1) c (.link parent?)) fun id p' =>
      g₀.Entrusts P parent? .typedef id p'.graph := by
  rw [typedefWithin]
  refine .reads_bind (.keyOf _) (.declared_bind ?_)
  split
  · next id hfound =>
    have hkind := (Option.filter_eq_some_iff.1 hfound).2
    exact (h.adopt rfl hkind parent?).bind fun _ p₁ h₁ => .pure h₁
  · refine (h.newTypedef (s := s) _).bind fun id p₁ h₁ => .declare_bind c .typedef ?_
    refine (ih.type (p := p₁.declare _ id c .typedef) _ h₁.here).bind fun _ p₂ h₂ => ?_
    exact (h₂.setField (by decide) (by decide)).bind fun _ p₃ h₃ => .pure (h₁.trans h₃)

theorem field_succ (c : CursorId) (q : NodeId) (h : g₀.Raises P p.graph) :
    Leaves p (fieldWithin s (fuel + 1) c (.node q)) fun id p' =>
      g₀.Raises P p'.graph ∧ p'.graph.parent id = .node q := by
  rw [fieldWithin]
  refine .reads_bind (.nameOf _) (.reads_bind (.typeOf _) ((ih.type _ h).bind fun _ p₁ h₁ => ?_))
  refine .reads_bind (.initialValue _ _) ((h₁.spanOf _).bind fun _ p₂ h₂ => ?_)
  refine (h₂.add (Node.isBare_make _ rfl) rfl).bind ?_
  rintro id p₃ ⟨h₃, hparent⟩
  refine (h₃.here.addAttributes _ _).bind ?_
  rintro ids p₄ ⟨h₄, hids⟩
  refine (h₄.setNodes (by decide) hids).bind fun _ p₅ h₅ => .pure ⟨h₃.trans h₅, ?_⟩
  exact h₅.abides.parent _ _ hparent

omit ih in
theorem all (s : ConversionSetting) (fuel : Nat) : AllRaise s fuel := by
  induction fuel with
  | zero => exact .zero
  | succ fuel ih =>
    exact {
      type := ih.type_succ
      newType := ih.newType_succ
      record := ih.record_succ
      member := ih.member_succ
      enum := ih.enum_succ
      typedef := ih.typedef_succ
      field := ih.field_succ }

end AllRaise

namespace Graph.Raises

open DeclGraph.Convert

variable {s : ConversionSetting} {g₀ : Graph} {P : Set (NodeId × NodeId)} {p : Account}
  {id q : NodeId}

theorem typeNode (h : g₀.Raises P p.graph) (t? : Option TypeId) :
    Leaves p (typeNode s t?) fun _ p' => g₀.Raises P p'.graph := (AllRaise.all s _).type t? h

/-! ### Statements -/

theorem statementNode (h : g₀.Raises P p.graph) (c : CursorId) :
    Leaves p (statementNode s (.node q) c) fun id p' =>
      g₀.Raises P p'.graph ∧ p'.graph.parent id = .node q := by
  refine .reads_bind (.kindOf _) (.reads_bind (.nameOf _) ((h.spanOf _).bind fun _ p₁ h₁ => ?_))
  refine (h₁.add (Node.isBare_make _ rfl) rfl).bind fun id p₂ ⟨h₂, hparent⟩ => ?_
  split
  · refine .reads_bind (.typeOf _) ((h₂.here.typeNode _).bind fun _ p₃ h₃ => ?_)
    refine (h₃.setField (by decide) (by decide)).bind fun _ p₄ h₄ => .pure ⟨h₂.trans h₄, ?_⟩
    exact h₄.abides.parent id q hparent
  · exact .pure ⟨h₂, hparent⟩

theorem statementNodes (h : g₀.Raises P p.graph) (ts : List CursorTree) :
    Leaves p (statementNodes s (.node q) ts) fun ids p' =>
      g₀.Raises P p'.graph ∧ p'.graph.AreIn q ids := by
  induction ts generalizing g₀ p with
  | nil => exact .pure ⟨h, .nil _ q⟩
  | cons t rest ih => exact cons (h.statementNode _) fun hp => ih (refl hp)

theorem expand (h : g₀.Raises P p.graph) (pending : Pending) :
    Leaves p (expand s pending) fun _ p' => g₀.Raises P p'.graph := by
  induction pending using Convert.expand.induct generalizing p with
  | case1 =>
    rw [Convert.expand]
    exact .pure h
  | case2 t id rest ih =>
    rw [Convert.expand]
    refine (h.statementNodes _).bind fun ids p₁ ⟨h₁, hids⟩ => ?_
    exact (h₁.setNodes (by decide) hids).bind fun _ p₂ h₂ => ih ids h₂

theorem addStatement (h : g₀.Raises P p.graph) (t : CursorTree) :
    Leaves p (addStatement s (.node q) t) fun id p' =>
      g₀.Raises P p'.graph ∧ p'.graph.parent id = .node q := by
  refine (h.statementNode _).bind fun id p₁ ⟨h₁, hparent⟩ => ?_
  exact (h₁.here.expand _).bind fun _ p₂ h₂ =>
    .pure ⟨h₁.trans h₂, h₂.abides.parent id q hparent⟩

theorem addStatements (h : g₀.Raises P p.graph) (ts : List CursorTree) :
    Leaves p (addStatements s (.node q) ts) fun ids p' =>
      g₀.Raises P p'.graph ∧ p'.graph.AreIn q ids := by
  induction ts generalizing g₀ p with
  | nil => exact .pure ⟨h, .nil _ q⟩
  | cons t rest ih => exact cons (h.addStatement _) fun hp => ih (refl hp)

/-! ### Functions -/

theorem addParameters (h : g₀.Raises P p.graph) (arguments : List CursorId) :
    Leaves p (addParameters s (.node q) arguments) fun ids p' =>
      g₀.Raises P p'.graph ∧ p'.graph.AreIn q ids := by
  induction arguments generalizing g₀ p with
  | nil => exact .pure ⟨h, .nil _ q⟩
  | cons a rest ih =>
    refine .reads_bind (.nameOf _) (.reads_bind (.typeOf _) ((h.typeNode _).bind fun _ p₁ h₁ => ?_))
    refine (h₁.spanOf _).bind fun _ p₂ h₂ => ?_
    exact cons (h₂.add (Node.isBare_make _ rfl) rfl) fun hp => ih (refl hp)

theorem addFunctionParts (h : g₀.Raises P p.graph) (ts : List CursorTree) :
    Leaves p (addFunctionParts s id ts) fun _ p' => g₀.Raises P p'.graph := by
  induction ts generalizing p with
  | nil => exact .pure h
  | cons t rest ih =>
    refine .reads_bind (.kindOf _) ?_
    split_ifs
    · refine (h.addStatements _).bind fun ids p₁ ⟨h₁, hids⟩ => ?_
      exact (h₁.setNodes (by decide) hids).bind fun _ p₂ h₂ => ih h₂
    · refine (h.addAttribute _ _).bind fun _ p₁ ⟨h₁, hparent⟩ => ?_
      exact (h₁.append (by decide) hparent).bind fun _ p₂ h₂ => ih h₂
    · exact .reads_bind (.pure _) (ih h)

theorem addFunction (h : g₀.Raises P p.graph) (t : CursorTree) :
    Leaves p (addFunction s t (.node q)) fun id p' =>
      g₀.Raises P p'.graph ∧ p'.graph.parent id = .node q := by
  refine .reads_bind (.nameOf _) ((h.typeNode _).bind fun _ p₁ h₁ => ?_)
  refine .reads_bind (.markersOf _ _) ((h₁.spanOf _).bind fun _ p₂ h₂ => ?_)
  refine (h₂.add (Node.isBare_make _ rfl) rfl).bind fun id p₃ ⟨h₃, hparent⟩ => ?_
  refine (h₃.here.addParameters _).bind fun ids p₄ ⟨h₄, hids⟩ => ?_
  refine (h₄.setNodes (by decide) hids).bind fun _ p₅ h₅ => ?_
  exact (h₅.addFunctionParts _).bind fun _ p₆ h₆ =>
    .pure ⟨h₃.trans h₆, h₆.abides.parent id q hparent⟩

/-! ### Containers -/

mutual

/-- What a tree declares is listed by its container. -/
theorem visit : (t : CursorTree) → ∀ {g₀ : Graph} {p : Account} {id : NodeId} {k : Kind},
    g₀.Raises P p.graph → (p.graph.node id).isKind k → k = .scope ∨ k = .compilation →
    Leaves p (visit s id t) fun _ p' => g₀.Raises P p'.graph
  | .node cursor children, g₀, p, id, k, h, hid, hk => by
    have hlists : ∀ name ∈ ["classes", "enums", "typedefs"], name ∈ k.fieldNames := by
      obtain rfl | rfl := hk <;> decide
    rw [Convert.visit]
    refine .reads_bind (.kindOf _) ?_
    split_ifs
    · exact (h.addFunction _).bind fun _ _ ⟨h₁, hparent⟩ => h₁.append (by decide) hparent
    · exact h.listing ((AllRaise.all s _).record _ (some id) h.here) rfl hid (hlists _ (by decide))
    · exact h.listing ((AllRaise.all s _).enum _ (some id) h.here) rfl hid (hlists _ (by decide))
    · exact h.listing ((AllRaise.all s _).typedef _ (some id) h.here) rfl hid (hlists _ (by decide))
    · exact ((AllRaise.all s _).field _ id h).bind fun _ _ ⟨h₁, hparent⟩ =>
        h₁.append (by decide) hparent
    -- a scope is a container of its own, and is listed when it is complete
    · refine .reads_bind (.nameOf _) ((h.spanOf _).bind fun _ p₁ h₁ => ?_)
      refine (h₁.addOf (Node.isBare_make _ rfl) rfl).bind fun x p₂ ⟨hx, h₂, hparent⟩ => ?_
      refine (visitAll children h₂.here hx (.inl rfl)).bind fun _ p₃ h₃ => ?_
      exact (h₂.trans h₃).append (by decide) (h₃.abides.parent _ _ hparent)
    · exact .pure h

/-- What trees declare is listed by their container. -/
theorem visitAll : (ts : List CursorTree) → ∀ {g₀ : Graph} {p : Account} {id : NodeId} {k : Kind},
    g₀.Raises P p.graph → (p.graph.node id).isKind k → k = .scope ∨ k = .compilation →
    Leaves p (visitAll s id ts) fun _ p' => g₀.Raises P p'.graph
  | [], _, _, _, _, h, _, _ => by
    rw [Convert.visitAll]
    exact .pure h
  | t :: rest, g₀, p, id, k, h, hid, hk => by
    rw [Convert.visitAll]
    refine (visit t h.here hid hk).bind fun _ p₁ h₁ => ?_
    exact (visitAll rest h₁.here (h₁.abides.kind id k hid) hk).mono fun _ _ h₂ =>
      (h.trans h₁).trans h₂

end

/-- What stands at the top is listed by the compilation. -/
theorem visitTop (h : g₀.Raises P p.graph) (hid : (p.graph.node id).isKind .compilation)
    (rest : List CursorId) :
    Leaves p (visitTop s id rest) fun _ p' => g₀.Raises P p'.graph := by
  induction rest generalizing g₀ p with
  | nil => exact .pure h
  | cons cursor rest ih =>
    have next {p₁ : Account} (h₁ : p.graph.Raises P p₁.graph) :
        Leaves p₁ (Convert.visitTop s id rest) fun _ p' => g₀.Raises P p'.graph :=
      (ih h₁.here (h₁.abides.kind id _ hid)).mono fun _ _ h₂ => (h.trans h₁).trans h₂
    refine .reads_bind (.check _) ?_
    split_ifs
    · refine .reads_bind (.kindOf _) ?_
      split_ifs
      · refine (h.here.addMacro _ _).bind fun _ p₁ ⟨h₁, hparent⟩ => ?_
        exact (h₁.append (by decide) hparent).bind fun _ p₂ h₂ => next h₂
      · refine (h.here.addAttribute _ _).bind fun _ p₁ ⟨h₁, hparent⟩ => ?_
        exact (h₁.append (by decide) hparent).bind fun _ p₂ h₂ => next h₂
      · exact (visit _ h.here hid (.inr rfl)).bind fun _ p₁ h₁ => next h₁
    · exact .reads_bind (.pure _) (next h.here)

theorem addRemarks (h : g₀.Raises P p.graph) (remarks : List Remark) :
    Leaves p (remarks.mapM Convert.addRemark) fun _ p' => g₀.Raises P p'.graph := by
  induction remarks generalizing p with
  | nil => exact .pure h
  | cons r rest ih =>
    rw [List.mapM_cons]
    exact (h.addRemark r).bind fun _ p₁ h₁ => (ih h₁).bind fun _ p₂ h₂ => .pure h₂

end Graph.Raises

end DeclGraph
