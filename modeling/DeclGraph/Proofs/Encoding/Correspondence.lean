import DeclGraph.Proofs.Encoding.Walk

/-!
# Graphs that are one up to the names of nodes

`Graph.IsRenaming` says that two rooted graphs are one as far as rules select: the nodes that are
reached through selected fields are paired off, paired nodes have one schema, and what stands in
their selected fields corresponds (`Value.Corresponds`).  Fields that are not selected may hold
anything.  The walk that counts visits then goes through the two graphs in step, with the number of
steps that each graph allows: its visits are those of the paired nodes (`Encoding.visits_eq`).
-/

namespace DeclGraph

open Encoding

/-! ### Corresponding values -/

/-- Two values are the same but for the nodes they refer to, which `f` translates. -/
inductive Value.Corresponds (f : NodeId → NodeId) : Value → Value → Prop
  /-- A scalar corresponds to itself. -/
  | scalar (s : Scalar) : Corresponds f (.scalar s) (.scalar s)
  /-- Lists and tuples correspond item by item. -/
  | sequence {v w : Value} {items items' : List Value} (hv : v.items? = some items)
      (hw : w.items? = some items') (h : List.Forall₂ (Corresponds f) items items') :
      Corresponds f v w
  /-- Maps with the same keys correspond value by value. -/
  | dict {entries entries' : List (Scalar × Value)}
      (keys : entries'.map Prod.fst = entries.map Prod.fst)
      (h : List.Forall₂ (Corresponds f) (entries.map Prod.snd) (entries'.map Prod.snd)) :
      Corresponds f (.dict entries) (.dict entries')
  /-- A node corresponds to its translation. -/
  | node (id : NodeId) : Corresponds f (.node id) (.node (f id))
  /-- Of other values only the name of the type counts. -/
  | foreign (typeName : String) : Corresponds f (.foreign typeName) (.foreign typeName)

/-- Corresponding values are both nodes, or none of them is and their parts correspond. -/
theorem Value.Corresponds.node_or_parts {f : NodeId → NodeId} {v w : Value}
    (h : Corresponds f v w) :
    (∃ id, v = .node id ∧ w = .node (f id)) ∨
      (∀ id, v ≠ .node id) ∧ (∀ id, w ≠ .node id) ∧
        List.Forall₂ (Corresponds f) (parts v) (parts w) := by
  cases h with
  | scalar s => exact .inr ⟨nofun, nofun, .nil⟩
  | @sequence _ _ items items' hv hw h =>
    rcases eq_of_items? hv with rfl | rfl <;> rcases eq_of_items? hw with rfl | rfl <;>
      exact .inr ⟨nofun, nofun, h⟩
  | dict keys h => exact .inr ⟨nofun, nofun, h⟩
  | node id => exact .inl ⟨id, rfl, rfl⟩
  | foreign t => exact .inr ⟨nofun, nofun, .nil⟩

/-! ### Renamings -/

/-- `f` translates what the rules select of the graph `g` with its root to the graph `h` with its
root. -/
structure Graph.IsRenaming (rules : Rules) (f : NodeId → NodeId) (g : Graph) (root : Value)
    (h : Graph) (root' : Value) : Prop where
  /-- The roots correspond. -/
  roots : root.Corresponds f root'
  /-- Different nodes have different translations. -/
  injective : Set.InjOn f {id | Reaches g rules root id}
  /-- A node has the schema of its translation. -/
  schema : ∀ id, Reaches g rules root id → (h.node (f id)).schema = (g.node id).schema
  /-- The selected fields of a node correspond to those of its translation. -/
  fields : ∀ id, Reaches g rules root id →
    ∀ names, rules.fieldsFor (g.node id).schema = .ok names →
      ∀ name ∈ names, ((g.node id).get name).Corresponds f ((h.node (f id)).get name)

namespace Encoding

variable {g h : Graph} {rules : Rules} {root root' : Value} {f : NodeId → NodeId}

/-- The selected fields of a node and those of its translation correspond in order. -/
theorem forall₂_get (r : Graph.IsRenaming rules f g root h root') {id : NodeId}
    (hid : Reaches g rules root id) {names : List String}
    (hnames : rules.fieldsFor (g.node id).schema = .ok names) :
    List.Forall₂ (Value.Corresponds f) (names.map (g.node id).get)
      (names.map (h.node (f id)).get) := by
  have hfields := r.fields id hid names hnames
  rw [List.forall₂_map_left_iff, List.forall₂_map_right_iff, List.forall₂_same]
  exact hfields

/-! ### Lists of nodes and of their translations -/

section

variable {ids : List NodeId} {id : NodeId}

/-- A node is in a list exactly if its translation is in the translated list. -/
theorem contains_map (hinj : ∀ m ∈ ids, f m = f id → m = id) :
    (ids.map f).contains (f id) = ids.contains id := by
  rw [Bool.eq_iff_iff, List.contains_iff_mem, List.contains_iff_mem, List.mem_map]
  refine ⟨?_, fun hmem => ⟨id, hmem, rfl⟩⟩
  rintro ⟨m, hmem, heq⟩
  rwa [← hinj m hmem heq]

/-- A node is visited as often as its translation. -/
theorem isShared_map (hinj : ∀ m ∈ ids, f m = f id → m = id) :
    isShared (ids.map f) (f id) = isShared ids id := by
  have hcount : (ids.map f).count (f id) = ids.count id := by
    rw [List.count, List.countP_map]
    refine List.countP_congr fun m hm => ?_
    simp only [Function.comp_apply, beq_iff_eq]
    exact ⟨hinj m hm, congrArg f⟩
  rw [isShared, isShared, hcount]

/-- A node has the identifier of its translation. -/
theorem identifier?_map (hinj : ∀ m ∈ ids, f m = f id → m = id) :
    Emission.identifier? (ids.map f) (f id) = Emission.identifier? ids id := by
  rw [Emission.identifier?, Emission.identifier?]
  congr 1
  induction ids with
  | nil => rfl
  | cons m ids ih =>
    rw [List.map_cons, List.idxOf?_cons, List.idxOf?_cons,
      ih fun k hk => hinj k (List.mem_cons_of_mem _ hk)]
    have hhead : (f m == f id) = (m == id) := by
      rw [Bool.eq_iff_iff, beq_iff_eq, beq_iff_eq]
      exact ⟨hinj m List.mem_cons_self, congrArg f⟩
    rw [hhead]

end

/-! ### Counting visits -/

theorem visitLoop_nil (fuel : Nat) (visits : List NodeId) :
    visitLoop g rules fuel [] visits = .ok visits := by
  cases fuel <;> rfl

/-- The visits of corresponding stacks are those of nodes and their translations. -/
theorem visitLoop_eq_of_walk (r : Graph.IsRenaming rules f g root h root') (hg : g.IsProper)
    (hh : h.IsProper) {fuel fuel' : Nat} {stack stack' : List Value}
    {visits followed followed' : List NodeId} (w : Walk g rules root fuel stack visits followed)
    (w' : Walk h rules root' fuel' stack' (visits.map f) followed')
    (hstack : List.Forall₂ (Value.Corresponds f) stack stack') :
    visitLoop h rules fuel' stack' (visits.map f)
      = (visitLoop g rules fuel stack visits).map (List.map f) := by
  induction fuel generalizing fuel' stack stack' visits followed followed' with
  | zero =>
    obtain rfl := w.stack_eq_nil
    cases hstack
    rw [visitLoop_nil, visitLoop_nil]
    rfl
  | succ fuel ih =>
    cases hstack with
    | nil =>
      rw [visitLoop_nil, visitLoop_nil]
      rfl
    | @cons v v' stack stack' hv hstack =>
      -- the other walk has steps left as well
      cases fuel' with
      | zero => exact absurd w'.stack_eq_nil (by simp)
      | succ fuel' =>
        rcases hv.node_or_parts with ⟨id, rfl, rfl⟩ | ⟨hne, hne', hparts⟩
        · have hid : Reaches g rules root id := w.reaches id (by simp)
          have hinj : ∀ m ∈ visits, f m = f id → m = id := fun m hm =>
            r.injective (w.reaches m (List.mem_append_left _ hm)) hid
          have hmem := contains_map hinj
          rw [visitLoop, visitLoop, hmem]
          split
          · next hcontains =>
            have hin : id ∈ visits := List.contains_iff_mem.1 hcontains
            have hin' : f id ∈ visits.map f := List.mem_map_of_mem hin
            exact ih (w.again ((w.mem_iff id).2 hin)) (w'.again ((w'.mem_iff _).2 hin')) hstack
          · next hcontains =>
            have hout : id ∉ followed := fun hin =>
              hcontains (List.contains_iff_mem.2 ((w.mem_iff id).1 hin))
            have hout' : f id ∉ followed' := fun hin => by
              rw [← hmem] at hcontains
              exact hcontains (List.contains_iff_mem.2 ((w'.mem_iff _).1 hin))
            rw [selected, selected, r.schema id hid]
            cases hnames : rules.fieldsFor (g.node id).schema with
            | error e => rfl
            | ok names =>
              have hnames' := hnames
              rw [← r.schema id hid] at hnames'
              exact ih (w.follow hg hout hnames ((List.reverse_perm _).append_right _))
                (w'.follow hh hout' hnames' ((List.reverse_perm _).append_right _))
                (List.rel_append (List.rel_reverse (forall₂_get r hid hnames)) hstack)
        · rw [visitLoop_pass hne, visitLoop_pass hne']
          exact ih (w.pass hne ((List.reverse_perm _).append_right _))
            (w'.pass hne' ((List.reverse_perm _).append_right _))
            (List.rel_append (List.rel_reverse hparts) hstack)

/-- The visits of a graph are those of the nodes' translations. -/
theorem visits_eq (r : Graph.IsRenaming rules f g root h root') (hg : g.IsProper)
    (hh : h.IsProper) : visits h rules root' = (visits g rules root).map (List.map f) :=
  visitLoop_eq_of_walk r hg hh (.start g rules root) (.start h rules root')
    (.cons r.roots .nil)

end Encoding

end DeclGraph
