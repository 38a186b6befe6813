import DeclGraph.Proofs.TranslationUnit.Growth

/-!
# Parents and the lists that they hold

Every declaration is listed by the one that it is in.  `Graph.Families P g` says so of a graph under
construction: what stands in a list that a declaration has for itself (`ownLists`) has that
declaration as its parent, and a record, an enumeration or a defined type that has a parent is
listed by it (`Kind.sharedList?`), or will be: then the pair of them is in `P`.

Nodes are added without lists of nodes (`Families.add`).  An own list may become any list of nodes
that have the declaration as their parent (`Families.setOwn`), a shared one may grow by nodes that
have any parent (`Families.setShared`), and what has no parent may get one (`Families.adopt`).  None
of this takes a kind or a parent from a node (`Graph.Abides`).
-/

namespace DeclGraph

/-! ### Lists of declarations -/

/-- The lists that a declaration has for itself: what is in them is in no other declaration. -/
def ownLists : List String :=
  ["functions", "parameters", "statements", "children", "fields", "items", "attributes",
    "namespaces", "macros"]

/-- The list for the nodes of a kind that may be in several declarations. -/
def Kind.sharedList? : Kind → Option String
  | .record => some "classes"
  | .enum => some "enums"
  | .typedef => some "typedefs"
  | _ => none

/-- The lists in which declarations list what is in them. -/
def containments : List String := ownLists ++ ["classes", "enums", "typedefs"]

theorem Kind.mem_containments {k : Kind} {name : String} (h : name ∈ k.sharedList?) :
    name ∈ containments := by
  cases k <;> simp_all [sharedList?, containments]

theorem Kind.exists_sharedList? {name : String} (h : name ∈ ["classes", "enums", "typedefs"]) :
    ∃ k ∈ [Kind.record, Kind.enum, Kind.typedef], name ∈ k.sharedList? := by
  revert name
  decide

theorem Kind.notMem_ownLists {k : Kind} {name : String} (h : name ∈ k.sharedList?) :
    name ∉ ownLists := by
  cases k with
  | record | enum | typedef =>
    obtain rfl := Option.mem_some_iff.1 h
    decide
  | _ => exact absurd h (Option.not_mem_none name)

theorem Kind.ne_parent_of_sharedList? {k : Kind} {name : String} (h : name ∈ k.sharedList?) :
    name ≠ "parent" := by
  rintro rfl
  exact absurd (mem_containments h) (by decide)

theorem Kind.parent_mem_of_sharedList? {k : Kind} {name : String} (h : name ∈ k.sharedList?) :
    "parent" ∈ k.fieldNames := by
  cases k with
  | record | enum | typedef => decide
  | _ => exact absurd h (Option.not_mem_none name)

theorem Kind.eq_of_sharedList? {k k' : Kind} {name : String} (h : name ∈ k.sharedList?)
    (h' : name ∈ k'.sharedList?) : k = k' := by
  have heq : k.sharedList? = k'.sharedList? := h.trans h'.symm
  cases k with
  | record | enum | typedef => cases k' <;> first | rfl | exact absurd heq (by decide)
  | _ => exact absurd h (Option.not_mem_none name)

/-- The usual values of fields hold no nodes. -/
theorem Kind.items?_usual (k : Kind) : ∀ e ∈ k.fields, e.2.items?.getD [] = [] := by
  have hall : (k.fields.all fun e => (e.2.items?.getD []).isEmpty) = true := by cases k <;> rfl
  exact fun e he => List.isEmpty_iff.1 (List.all_eq_true.1 hall e he)

namespace Value

/-- The value that refers to a parent, if there is one. -/
def link : Option NodeId → Value
  | none => .null
  | some q => .node q

theorem null_ne_node {id : NodeId} : null ≠ node id := by simp [null]

/-- A list holds a node. -/
def HasNode (v : Value) (id : NodeId) : Prop := .node id ∈ v.items?.getD []

theorem hasNode_nodes {ids : List NodeId} {id : NodeId} : (nodes ids).HasNode id ↔ id ∈ ids := by
  simp [HasNode, nodes, items?]

theorem hasNode_appended {v : Value} {item id : NodeId} :
    (Convert.appended v (.node item)).HasNode id ↔ v.HasNode id ∨ id = item := by
  simp [HasNode, Convert.appended, items?]

theorem refersTo_iff {v : Value} {id : NodeId} : Convert.refersTo v id ↔ v.HasNode id := by
  simp only [Convert.refersTo, HasNode, List.any_eq_true]
  constructor
  · rintro ⟨w, hw, heq⟩
    split at heq
    · rwa [← beq_iff_eq.1 heq]
    · exact absurd heq Bool.false_ne_true
  · exact fun h => ⟨_, h, beq_self_eq_true id⟩

end Value

namespace Node

theorem isKind_make {k k' : Kind} {given : List (String × Value)} :
    (make k given).isKind k' ↔ k = k' := by
  simp [isKind, make]

theorem eq_of_isKind {n : Node} {k k' : Kind} (h : n.isKind k) (h' : n.isKind k') : k = k' := by
  have hshape : n.shape = .declared k := by simpa [isKind] using h
  simpa [isKind, hshape] using h'

/-- No list of a node holds nodes. -/
def IsBare (n : Node) : Prop := ∀ name ∈ containments, ∀ id, ¬(n.get name).HasNode id

/-- A node is bare if what was given for its lists holds no nodes. -/
theorem isBare_make_of (k : Kind) {given : List (String × Value)}
    (h : ∀ e ∈ given, e.1 ∈ containments → ∀ id, ¬e.2.HasNode id) : (make k given).IsBare := by
  intro name hname id
  rw [get]
  cases hfound : (make k given).get? name with
  | none => exact List.not_mem_nil
  | some v =>
    obtain ⟨e, he, heq⟩ := List.mem_map.1 (Entries.mem_of_get? hfound)
    obtain ⟨rfl, rfl⟩ := Prod.mk.inj heq
    cases hgiven : Entries.get? e.1 given with
    | none =>
      rw [Option.getD_some, Option.getD_none, Value.HasNode, k.items?_usual e he]
      exact List.not_mem_nil
    | some v => exact h _ (Entries.mem_of_get? hgiven) hname id

/-- A node is bare if nothing was given for its lists. -/
theorem isBare_make (k : Kind) {given : List (String × Value)}
    (h : (given.any fun e => decide (e.1 ∈ containments)) = false) : (make k given).IsBare := by
  refine isBare_make_of k fun e he hname => ?_
  have hany : (given.any fun e => decide (e.1 ∈ containments)) = true :=
    List.any_eq_true.2 ⟨e, he, decide_eq_true hname⟩
  exact absurd (hany.symm.trans h) (by decide)

end Node

namespace Graph

variable {g g' : Graph} {P Q : Set (NodeId × NodeId)} {q id m : NodeId} {k : Kind} {n : Node}
  {name other : String} {v : Value}

/-- The parent of a node. -/
def parent (g : Graph) (id : NodeId) : Value := (g.node id).get "parent"

/-- A list of a node holds another one. -/
def Lists (g : Graph) (q : NodeId) (name : String) (id : NodeId) : Prop :=
  ((g.node q).get name).HasNode id

/-- A node has another one in one of its containment lists. -/
def Contains (g : Graph) (n x : NodeId) : Prop := ∃ name ∈ containments, g.Lists n name x

theorem node_of_size_le (h : g.size ≤ id) : g.node id = .absent := by
  by_contra hne
  exact absurd (lt_size_of_node_ne hne) (not_lt.2 h)

theorem node_add (g : Graph) (n : Node) (id : NodeId) :
    (g.add n).node id = if id = g.size then n else g.node id := by
  split_ifs with hid
  · rw [hid, node_add_size]
  · rcases lt_or_ge id g.size with hlt | hge
    · exact node_add_of_lt g n hlt
    · have hsize : (g.add n).size ≤ id := by
        have hlt := lt_of_le_of_ne hge (Ne.symm hid)
        simpa [Graph.add, size] using hlt
      rw [node_of_size_le hge, node_of_size_le hsize]

theorem lists_add (hn : n.IsBare) (hname : name ∈ containments) :
    (g.add n).Lists q name id ↔ g.Lists q name id := by
  rw [Lists, Lists, node_add]
  split_ifs with hq
  · rw [hq, node_of_size_le le_rfl]
    exact ⟨fun h => absurd h (hn name hname id), fun h => absurd h List.not_mem_nil⟩
  · rfl

theorem parent_add_of_ne (h : id ≠ g.size) : (g.add n).parent id = g.parent id := by
  rw [parent, parent, node_add, if_neg h]

theorem parent_size (g : Graph) : g.parent g.size = .null := by
  rw [parent, node_of_size_le le_rfl]
  rfl

theorem isKind_setField (g : Graph) (id m : NodeId) (name : String) (v : Value) (k : Kind) :
    ((g.setField id name v).node m).isKind k = (g.node m).isKind k := by
  rw [Node.isKind, shape_setField, Node.isKind]

theorem parent_setField (hname : name ≠ "parent") (m : NodeId) :
    (g.setField id name v).parent m = g.parent m := by
  rw [parent, parent, node_setField]
  split_ifs
  · exact Node.get_set_of_ne _ (Ne.symm hname) v
  · rfl

theorem lists_setField_of_ne (h : q ≠ id ∨ other ≠ name) :
    (g.setField id name v).Lists q other m ↔ g.Lists q other m := by
  rw [Lists, Lists, node_setField]
  split_ifs with hq
  · rw [Node.get_set_of_ne _ (h.resolve_left fun hne => hne hq.symm) v]
  · rfl

theorem hasNode_of_lists_setField (h : (g.setField id name v).Lists id name m) : v.HasNode m := by
  rw [Lists, node_setField, if_pos rfl, Node.get, Node.get?_set, if_pos rfl] at h
  cases hfound : (g.node id).get? name with
  | none =>
    rw [hfound] at h
    exact absurd h List.not_mem_nil
  | some w => rwa [hfound] at h

theorem lists_setField_self (hname : name ∈ (g.node id).fieldNames) (hv : v.HasNode m) :
    (g.setField id name v).Lists id name m := by
  rwa [Lists, node_setField, if_pos rfl, Node.get_set_self hname]

theorem mem_fieldNames_of_lists (h : g.Lists id name m) : name ∈ (g.node id).fieldNames := by
  rw [Lists, Node.get] at h
  cases hfound : (g.node id).get? name with
  | none =>
    rw [hfound] at h
    exact absurd h List.not_mem_nil
  | some w => exact List.mem_map_of_mem (f := Prod.fst) (Entries.mem_of_get? hfound)

/-! ### Parents that are given -/

/-- The pairs that are awaited when a node has got a parent. -/
def awaiting (P : Set (NodeId × NodeId)) : Option NodeId → NodeId → Set (NodeId × NodeId)
  | none, _ => P
  | some q, id => insert (q, id) P

theorem subset_awaiting (P : Set (NodeId × NodeId)) (parent? : Option NodeId) (id : NodeId) :
    P ⊆ awaiting P parent? id := by
  cases parent? with
  | none => exact subset_rfl
  | some q => exact Set.subset_insert _ _

/-! ### What stays -/

/-- Nodes keep their kinds, and those that have a parent keep it. -/
structure Abides (g g' : Graph) : Prop where
  kind : ∀ id k, (g.node id).isKind k → (g'.node id).isKind k
  parent : ∀ id q, g.parent id = .node q → g'.parent id = .node q

namespace Abides

theorem refl (g : Graph) : Abides g g := ⟨fun _ _ => id, fun _ _ => id⟩

theorem trans {g₁ : Graph} (h : Abides g g₁) (h' : Abides g₁ g') : Abides g g' :=
  ⟨fun id k hk => h'.kind id k (h.kind id k hk), fun id q hq => h'.parent id q (h.parent id q hq)⟩

theorem add (g : Graph) (n : Node) : Abides g (g.add n) where
  kind id k hk := by
    rw [node_add]
    split_ifs with hid
    · rw [hid, node_of_size_le le_rfl] at hk
      exact absurd hk (by simp [Node.isKind, Node.absent])
    · exact hk
  parent id q hq := by
    rwa [parent_add_of_ne]
    rintro rfl
    rw [parent_size] at hq
    exact absurd hq Value.null_ne_node

theorem setField (hname : name ≠ "parent") : Abides g (g.setField id name v) where
  kind m k hk := by rwa [isKind_setField]
  parent m q hq := by rwa [parent_setField hname]

/-- What has no parent may get one. -/
theorem adopt (hnone : g.parent id = .null) : Abides g (g.setField id "parent" v) where
  kind m k hk := by rwa [isKind_setField]
  parent m q hq := by
    rw [Graph.parent, node_setField]
    split_ifs with hid
    · rw [← hid, hnone] at hq
      exact absurd hq Value.null_ne_node
    · exact hq

end Abides

/-! ### Families -/

/-- Every declaration is listed by the one that it is in, or will be: then the pair of them is
awaited. -/
structure Families (P : Set (NodeId × NodeId)) (g : Graph) : Prop where
  /-- A node has the fields of its kind. -/
  names : ∀ id k, (g.node id).isKind k → (g.node id).fieldNames = k.fieldNames
  /-- What stands in an own list has the node with the list as its parent. -/
  own : ∀ q, ∀ name ∈ ownLists, ∀ id, g.Lists q name id → g.parent id = .node q
  /-- What stands in a shared list is of the kind for it and has a parent. -/
  shared : ∀ q k, ∀ name ∈ k.sharedList?, ∀ id, g.Lists q name id →
    (g.node id).isKind k ∧ ∃ r, g.parent id = .node r
  /-- The parent of what may stand in several lists lists it. -/
  homed : ∀ id k, ∀ name ∈ k.sharedList?, (g.node id).isKind k →
    g.parent id = .null ∨ ∃ q, g.parent id = .node q ∧ (g.Lists q name id ∨ (q, id) ∈ P)

namespace Families

open Node

theorem empty (P : Set (NodeId × NodeId)) : Families P .empty where
  names id k hid := absurd hid (by simp [node, Graph.empty, Node.isKind, Node.absent])
  own q name _ id hlisted := absurd hlisted List.not_mem_nil
  shared q k name _ id hlisted := absurd hlisted List.not_mem_nil
  homed id k name _ hid := .inl rfl

theorem mono (h : Families P g) (hPQ : P ⊆ Q) : Families Q g where
  names := h.names
  own := h.own
  shared := h.shared
  homed id k name hname hid := by
    refine (h.homed id k name hname hid).imp_right fun ⟨q, hq, hlisted⟩ => ⟨q, hq, ?_⟩
    exact hlisted.imp_right fun hmem => hPQ hmem

theorem add {given : List (String × Value)} (h : Families P g) (hbare : (make k given).IsBare)
    (hparent : k.sharedList?.isSome → (make k given).get "parent" = .null ∨
      ∃ q, (make k given).get "parent" = .node q ∧ (q, g.size) ∈ P) :
    Families P (g.add (make k given)) where
  names id k' hid := by
    rw [node_add] at hid ⊢
    split_ifs at hid ⊢
    · rw [← isKind_make.1 hid, fieldNames_make]
    · exact h.names id k' hid
  own q name hname id hlisted := by
    have hparent := h.own q name hname id
      ((lists_add hbare (List.mem_append_left _ hname)).1 hlisted)
    exact (Abides.add g _).parent id q hparent
  shared q k name hname id hlisted := by
    obtain ⟨hk, r, hr⟩ := h.shared q k name hname id
      ((lists_add hbare (Kind.mem_containments hname)).1 hlisted)
    exact ⟨(Abides.add g _).kind id k hk, r, (Abides.add g _).parent id r hr⟩
  homed id k' name hname hid := by
    by_cases hnew : id = g.size
    · -- the new node is owed to its parent
      subst hnew
      rw [node_add_size, isKind_make] at hid
      subst hid
      rw [Graph.parent, node_add_size]
      refine (hparent (Option.isSome_of_mem hname)).imp_right fun ⟨q, hq, hmem⟩ => ?_
      exact ⟨q, hq, .inr hmem⟩
    · rw [node_add, if_neg hnew] at hid
      rw [parent_add_of_ne hnew]
      refine (h.homed id k' name hname hid).imp_right fun ⟨q, hq, hlisted⟩ => ⟨q, hq, ?_⟩
      exact hlisted.imp_left (lists_add hbare (Kind.mem_containments hname)).2

theorem names_setField (h : Families P g) (hm : ((g.setField id name v).node m).isKind k) :
    ((g.setField id name v).node m).fieldNames = k.fieldNames := by
  rw [isKind_setField] at hm
  rw [node_setField]
  split_ifs
  · rw [fieldNames_set, h.names m k hm]
  · exact h.names m k hm

/-- A field may become what suits it; a shared list may only grow. -/
theorem set (h : Families P g) (hparent : name ≠ "parent")
    (hown : name ∈ ownLists → ∀ m, v.HasNode m → g.parent m = .node id)
    (hshared : ∀ k, name ∈ k.sharedList? → (∀ m, g.Lists id name m → v.HasNode m) ∧
      ∀ m, v.HasNode m → (g.node m).isKind k ∧ ∃ r, g.parent m = .node r) :
    Families P (g.setField id name v) where
  names _ _ := h.names_setField
  own q other hother m hlisted := by
    rw [parent_setField hparent]
    -- either the field that changed is asked for, or everything is as before
    by_cases hset : q = id ∧ other = name
    · obtain ⟨rfl, rfl⟩ := hset
      exact hown hother m (hasNode_of_lists_setField hlisted)
    · rw [lists_setField_of_ne (not_and_or.1 hset)] at hlisted
      exact h.own q other hother m hlisted
  shared q k other hother m hlisted := by
    rw [isKind_setField, parent_setField hparent]
    by_cases hset : q = id ∧ other = name
    · obtain ⟨rfl, rfl⟩ := hset
      exact (hshared k hother).2 m (hasNode_of_lists_setField hlisted)
    · rw [lists_setField_of_ne (not_and_or.1 hset)] at hlisted
      exact h.shared q k other hother m hlisted
  homed m k other hother hm := by
    rw [isKind_setField] at hm
    rw [parent_setField hparent]
    refine (h.homed m k other hother hm).imp_right fun ⟨q, hq, hlisted⟩ => ⟨q, hq, ?_⟩
    refine hlisted.imp_left fun hlisted => ?_
    by_cases hset : q = id ∧ other = name
    · obtain ⟨rfl, rfl⟩ := hset
      exact lists_setField_self (mem_fieldNames_of_lists hlisted) ((hshared k hother).1 m hlisted)
    · rwa [lists_setField_of_ne (not_and_or.1 hset)]

/-- A field that is no list and no parent may become anything. -/
theorem setField (h : Families P g) (hname : name ∉ containments) (hparent : name ≠ "parent") :
    Families P (g.setField id name v) :=
  h.set hparent (fun hown => absurd (List.mem_append_left _ hown) hname)
    fun _ hk => absurd (Kind.mem_containments hk) hname

/-- An own list may become any list of nodes whose parent has it. -/
theorem setOwn (h : Families P g) (hname : name ∈ ownLists)
    (hv : ∀ m, v.HasNode m → g.parent m = .node id) : Families P (g.setField id name v) :=
  h.set (fun heq => absurd (heq ▸ hname) (by decide)) (fun _ => hv)
    fun _ hk => absurd hname (Kind.notMem_ownLists hk)

/-- What is listed is awaited no longer. -/
theorem settle (h : Families (insert (q, m) P) g) (hk : name ∈ k.sharedList?)
    (hm : (g.node m).isKind k) (hlisted : g.Lists q name m) : Families P g where
  names := h.names
  own := h.own
  shared := h.shared
  homed id k' name' hname' hid := by
    refine (h.homed id k' name' hname' hid).imp_right fun ⟨r, hr, hlisted'⟩ => ⟨r, hr, ?_⟩
    rcases hlisted' with hlisted' | heq | hmem
    · exact .inl hlisted'
    -- a node has one kind, and this has one list
    · obtain ⟨rfl, rfl⟩ := Prod.mk.inj heq
      obtain rfl := eq_of_isKind hm hid
      obtain rfl := Option.mem_unique hk hname'
      exact .inl hlisted
    · exact .inr hmem

/-- A shared list may get another node of its kind that has a parent; then this is awaited no
longer. -/
theorem setShared (h : Families (insert (id, m) P) g) (hk : name ∈ k.sharedList?)
    (hid : name ∈ (g.node id).fieldNames) (hm : (g.node m).isKind k)
    (hparent : ∃ r, g.parent m = .node r) :
    Families P (g.setField id name (Convert.appended ((g.node id).get name) (.node m))) := by
  refine Families.settle ?_ hk ((isKind_setField ..).trans hm)
    (lists_setField_self hid (Value.hasNode_appended.2 (.inr rfl)))
  refine h.set (Kind.ne_parent_of_sharedList? hk)
    (fun hown => absurd hown (Kind.notMem_ownLists hk)) fun k' hk' => ?_
  obtain rfl := Kind.eq_of_sharedList? hk hk'
  refine ⟨fun c hc => Value.hasNode_appended.2 (.inl hc), fun c hc => ?_⟩
  rcases Value.hasNode_appended.1 hc with hc | rfl
  · exact h.shared id k name hk c hc
  · exact ⟨hm, hparent⟩

theorem parent_setField_self (h : Families P g) (hk : name ∈ k.sharedList?)
    (hm : (g.node m).isKind k) (v : Value) : (g.setField m "parent" v).parent m = v := by
  have hfield : "parent" ∈ (g.node m).fieldNames :=
    (h.names m k hm).symm ▸ Kind.parent_mem_of_sharedList? hk
  rw [Graph.parent, node_setField, if_pos rfl, get_set_self hfield]

/-- What has no parent may get one, which has to list it then. -/
theorem adopt (h : Families P g) (hm : g.parent m = .null) (parent? : Option NodeId) :
    Families (awaiting P parent? m) (g.setField m "parent" (.link parent?)) where
  names _ _ := h.names_setField
  own r name hname id hlisted := by
    have hne : name ≠ "parent" := fun heq => absurd (heq ▸ hname) (by decide)
    rw [lists_setField_of_ne (.inr hne)] at hlisted
    exact (Abides.adopt hm).parent id r (h.own r name hname id hlisted)
  shared r k name hname id hlisted := by
    rw [lists_setField_of_ne (.inr (Kind.ne_parent_of_sharedList? hname))] at hlisted
    obtain ⟨hk, r', hr'⟩ := h.shared r k name hname id hlisted
    exact ⟨(isKind_setField ..).trans hk, r', (Abides.adopt hm).parent id r' hr'⟩
  homed id k name hname hid := by
    rw [isKind_setField] at hid
    by_cases heq : m = id
    · -- its new parent has to list it, which is still to come
      subst heq
      rw [h.parent_setField_self hname hid]
      cases parent? with
      | none => exact .inl rfl
      | some q => exact .inr ⟨q, rfl, .inr (Set.mem_insert _ _)⟩
    · rw [Graph.parent, node_setField, if_neg heq]
      refine (h.homed id k name hname hid).imp_right fun ⟨r, hr, hlisted⟩ => ⟨r, hr, ?_⟩
      rw [lists_setField_of_ne (.inr (Kind.ne_parent_of_sharedList? hname))]
      exact hlisted.imp_right fun hmem => subset_awaiting P parent? m hmem

/-- Where nobody is awaited, what is contained anywhere is contained in its parent; only a record,
an enumeration or a defined type may be contained elsewhere too. -/
theorem exists_parent (h : g.Families ∅) (hcontains : g.Contains q id) :
    ∃ r, g.parent id = .node r ∧ g.Contains r id ∧
      (r = q ∨ ∃ k ∈ [Kind.record, Kind.enum, Kind.typedef], (g.node id).isKind k) := by
  obtain ⟨name, hname, hlisted⟩ := hcontains
  rcases List.mem_append.1 hname with hown | hshared
  · exact ⟨q, h.own q name hown id hlisted, ⟨name, hname, hlisted⟩, .inl rfl⟩
  · obtain ⟨k, hkinds, hk⟩ := Kind.exists_sharedList? hshared
    obtain ⟨hkind, r', hr'⟩ := h.shared q k name hk id hlisted
    rcases h.homed id k name hk hkind with hnone | ⟨r, hr, hhome | hawaited⟩
    · exact absurd (hnone.symm.trans hr') Value.null_ne_node
    · exact ⟨r, hr, ⟨name, hname, hhome⟩, .inr ⟨k, hkinds, hkind⟩⟩
    · exact absurd hawaited (Set.notMem_empty _)

end Families

end Graph

end DeclGraph
