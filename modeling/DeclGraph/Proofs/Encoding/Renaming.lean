import DeclGraph.Proofs.Encoding.Correspondence
import DeclGraph.Proofs.Encoding.Tracking

/-!
# What encoding depends on

Graphs that are one up to the names of nodes (`Graph.IsRenaming`) are written in step: the same
cells are filled, each graph in the number of steps that it allows (`Encoding.Emission.map_cells_run`).
So the two graphs have one document, or one error (`Graph.IsRenaming.encode_eq`), and one text
(`Graph.dump_of_isRenaming`).  In particular a value in a field that the rules hide does not count,
whatever it is and whatever it refers to (`Graph.encode_setField_of_hidden`).
-/

namespace DeclGraph

open Encoding

namespace Encoding

namespace Emission

variable {g h : Graph} {rules : Rules} {root root' : Value} {f : NodeId → NodeId}
  {shared shared' : NodeId → Bool} {fuel fuel' : Nat} {e e' : Emission}
  {followed followed' : List NodeId} {v w : Value}

/-! ### Writing in step -/

/-- Corresponding items correspond where the same is put beside them. -/
theorem forall₂_zip {items items' : List Value}
    (h : List.Forall₂ (Value.Corresponds f) items items') (cs : List CellId) :
    List.Forall₂ (fun x y : Value × CellId => x.1.Corresponds f y.1 ∧ y.2 = x.2) (items.zip cs)
      (items'.zip cs) := by
  induction h generalizing cs with
  | nil => exact .nil
  | cons hv _ ih =>
    cases cs with
    | nil => exact .nil
    | cons c cs => exact .cons ⟨hv, rfl⟩ (ih cs)

/-- Entries with the same keys and corresponding values correspond. -/
theorem forall₂_of_keys {κ : Type} {entries entries' : List (κ × Value)}
    (hkeys : entries'.map Prod.fst = entries.map Prod.fst)
    (h : List.Forall₂ (Value.Corresponds f) (entries.map Prod.snd) (entries'.map Prod.snd)) :
    List.Forall₂ (fun x y => y.1 = x.1 ∧ x.2.Corresponds f y.2) entries entries' := by
  induction entries generalizing entries' with
  | nil =>
    obtain rfl := List.map_eq_nil_iff.1 hkeys
    exact .nil
  | cons x entries ih =>
    cases entries' with
    | nil => exact absurd hkeys (by simp)
    | cons y entries' =>
      obtain ⟨hkey, hkeys⟩ := List.cons.inj hkeys
      cases h with
      | cons hv h => exact .cons ⟨hkey, hv⟩ (ih hkeys h)

/-- Two states of writing that are one but for the names of the nodes. -/
structure Agrees (f : NodeId → NodeId) (e e' : Emission) : Prop where
  /-- The cells are the same. -/
  cells : e'.cells = e.cells
  /-- The same nodes have identifiers, in the same order. -/
  named : e'.named = e.named.map f
  /-- The same is still to be written. -/
  stack : List.Forall₂ (fun x y => x.1.Corresponds f y.1 ∧ y.2 = x.2) e.stack e'.stack

namespace Agrees

theorem start {root root' : Value} (h : root.Corresponds f root') :
    Agrees f (.start root) (.start root') :=
  ⟨rfl, rfl, .cons ⟨h, rfl⟩ .nil⟩

theorem fill (a : Agrees f e e') (cell : CellId) (v : Json) :
    Agrees f (e.fill cell v) (e'.fill cell v) :=
  ⟨by rw [Emission.fill, Emission.fill, a.cells], a.named, a.stack⟩

/-- Arrays of corresponding items are opened alike. -/
theorem openArray (a : Agrees f e e') (cell : CellId) {items items' : List Value}
    (h : List.Forall₂ (Value.Corresponds f) items items') :
    Agrees f (e.openArray cell items) (e'.openArray cell items') := by
  have hlength := h.length_eq
  refine ⟨?_, a.named, List.rel_append ?_ a.stack⟩
  · simp only [Emission.openArray, a.cells, hlength]
  · rw [a.cells, ← hlength]
    exact forall₂_zip h _

/-- Objects with the same keys and corresponding values are opened alike. -/
theorem openObject (a : Agrees f e e') (cell : CellId) (leading : List (String × Json))
    {entries entries' : List (String × Value)}
    (hkeys : entries'.map Prod.fst = entries.map Prod.fst)
    (h : List.Forall₂ (Value.Corresponds f) (entries.map Prod.snd) (entries'.map Prod.snd)) :
    Agrees f (e.openObject cell leading entries) (e'.openObject cell leading entries') := by
  refine ⟨?_, a.named, List.rel_append ?_ a.stack⟩
  · simp only [Emission.openObject, a.cells, hkeys]
  · rw [a.cells, hkeys, List.forall₂_map_left_iff, List.forall₂_map_right_iff]
    refine (forall₂_of_keys hkeys h).imp ?_
    rintro ⟨key, v⟩ ⟨_, v'⟩ ⟨rfl, hv⟩
    exact ⟨hv, rfl⟩

end Agrees

section

variable (r : Graph.IsRenaming rules f g root h root')
include r

/-- A node is written like its translation, or both fail alike. -/
theorem write_node_agrees {id : NodeId} (hid : Reaches g rules root id)
    (hnamed : ∀ m ∈ e.named, Reaches g rules root m) (hshared : shared' (f id) = shared id)
    (a : Agrees f e e') (cell : CellId) :
    (∃ err, write g rules shared e (.node id) cell = .error err ∧
      write h rules shared' e' (.node (f id)) cell = .error err) ∨
    (∃ e₁ e₁', write g rules shared e (.node id) cell = .ok e₁ ∧
      write h rules shared' e' (.node (f id)) cell = .ok e₁' ∧ Agrees f e₁ e₁') := by
  -- reached nodes are paired off, so the identifier is found at the same place
  have hsame : identifier? e'.named (f id) = identifier? e.named id := by
    rw [a.named]
    exact identifier?_map fun m hm => r.injective (hnamed m hm) hid
  cases hidentifier : identifier? e.named id with
  | some ref =>
    rw [hidentifier] at hsame
    refine .inr ⟨_, _, ?_, ?_, a.fill cell (.object [(refKey, .string ref)])⟩
    · simp only [write, hidentifier]
    · simp only [write, hsame]
  | none =>
    rw [hidentifier] at hsame
    cases hnames : rules.fieldsFor (g.node id).schema with
    | error err =>
      have hnames' := hnames
      rw [← r.schema id hid] at hnames'
      exact .inl ⟨.rules err, by simp only [write, hidentifier, hnames],
        by simp only [write, hsame, hnames']⟩
    | ok names =>
      have hnames' := hnames
      rw [← r.schema id hid] at hnames'
      refine .inr ⟨_, _, write_node_of_none hidentifier hnames cell,
        write_node_of_none hsame hnames' cell, ?_⟩
      have hkeys : (names.map fun name => (name, (h.node (f id)).get name)).map Prod.fst
          = (names.map fun name => (name, (g.node id).get name)).map Prod.fst := by
        rw [List.map_map, List.map_map]
        rfl
      have hvalues : List.Forall₂ (Value.Corresponds f)
          ((names.map fun name => (name, (g.node id).get name)).map Prod.snd)
          ((names.map fun name => (name, (h.node (f id)).get name)).map Prod.snd) := by
        rw [List.map_map, List.map_map]
        exact forall₂_get r hid hnames
      rw [hshared]
      split
      · have hlength : e'.named.length = e.named.length := by rw [a.named, List.length_map]
        -- both begin with the next identifier, for as many have been given on both sides
        have hbegun : Agrees f { e with named := e.named ++ [id] }
            { e' with named := e'.named ++ [f id] } :=
          ⟨a.cells, by rw [a.named, List.map_append, List.map_singleton], a.stack⟩
        rw [hlength]
        exact hbegun.openObject cell _ hkeys hvalues
      · exact a.openObject cell [] hkeys hvalues

/-- A value is written like the corresponding one, or both fail alike. -/
theorem write_agrees (hreaches : ∀ id, v = .node id → Reaches g rules root id)
    (hnamed : ∀ id ∈ e.named, Reaches g rules root id)
    (hshared : ∀ id, Reaches g rules root id → shared' (f id) = shared id) (a : Agrees f e e')
    (hv : v.Corresponds f w) (cell : CellId) :
    (∃ err, write g rules shared e v cell = .error err ∧
      write h rules shared' e' w cell = .error err) ∨
    (∃ e₁ e₁', write g rules shared e v cell = .ok e₁ ∧
      write h rules shared' e' w cell = .ok e₁' ∧ Agrees f e₁ e₁') := by
  cases hv with
  | scalar s => exact .inr ⟨_, _, rfl, rfl, a.fill cell _⟩
  | foreign t => exact .inl ⟨_, rfl, rfl⟩
  | sequence hv hw hitems =>
    exact .inr ⟨_, _, write_of_items? hv e cell, write_of_items? hw e' cell,
      a.openArray cell hitems⟩
  | @dict entries entries' keys hvalues =>
    refine .inr ⟨_, _, rfl, rfl, a.openObject cell [] ?_ ?_⟩
    · have hkeys := congrArg (List.map Scalar.display) keys
      simpa [Function.comp_def] using hkeys
    · simpa [Function.comp_def] using hvalues
  | node id =>
    have hid := hreaches id rfl
    exact write_node_agrees r hid hnamed (hshared id hid) a cell

/-- Two states that agree are run to the same cells, or to the same error. -/
theorem map_cells_run (hg : g.IsProper) (hh : h.IsProper) {ids ids' : List NodeId}
    (hnd : ids.Nodup) (hmem : ∀ m, m ∈ ids ↔ Reaches g rules root m)
    (hnd' : ids'.Nodup) (hmem' : ∀ m, m ∈ ids' ↔ Reaches h rules root' m)
    (htwice : ∀ id, ReachedTwice g rules root id → shared id = true)
    (htwice' : ∀ id, ReachedTwice h rules root' id → shared' id = true)
    (hshared : ∀ id, Reaches g rules root id → shared' (f id) = shared id)
    (t : Tracked g rules root shared fuel e followed)
    (t' : Tracked h rules root' shared' fuel' e' followed') (a : Agrees f e e') :
    (run h rules shared' fuel' e').map Emission.cells
      = (run g rules shared fuel e).map Emission.cells := by
  obtain ⟨cells, named, stack⟩ := e
  obtain ⟨cells', named', stack'⟩ := e'
  induction fuel generalizing fuel' cells cells' named named' stack stack' followed followed' with
  | zero =>
    obtain rfl := t.stack_eq_nil
    cases a.stack
    rw [run_nil, run_nil]
    exact congrArg Except.ok a.cells
  | succ fuel ih =>
    cases a.stack with
    | nil =>
      rw [run_nil, run_nil]
      exact congrArg Except.ok a.cells
    | @cons x y stack stack' hxy hstack =>
      obtain ⟨v, cell⟩ := x
      obtain ⟨w, cell'⟩ := y
      obtain ⟨hv, hcell⟩ := hxy
      obtain rfl : cell' = cell := hcell
      -- the other run has steps left as well
      cases fuel' with
      | zero => exact absurd t'.stack_eq_nil (by simp)
      | succ fuel' =>
        have hrest : Agrees f ⟨cells, named, stack⟩ ⟨cells', named', stack'⟩ :=
          ⟨a.cells, a.named, hstack⟩
        have hreaches : ∀ id, v = .node id → Reaches g rules root id := by
          rintro id rfl
          exact t.reaches_of_node
        have hnamed : ∀ id ∈ named, Reaches g rules root id := t.reaches_of_named
        rw [run, run]
        rcases write_agrees r hreaches hnamed hshared hrest hv cell' with
          ⟨err, hwrite, hwrite'⟩ | ⟨e₁, e₁', hwrite, hwrite', hagrees⟩
        · simp only [hwrite, hwrite']
        · obtain ⟨followed₁, t₁⟩ := t.step hg hnd hmem htwice hwrite
          obtain ⟨followed₁', t₁'⟩ := t'.step hh hnd' hmem' htwice' hwrite'
          simp only [hwrite, hwrite']
          exact ih _ _ _ t₁ _ _ _ t₁' hagrees

end

end Emission

end Encoding

namespace Graph.IsRenaming

variable {g h : Graph} {rules : Rules} {root root' : Value} {f : NodeId → NodeId}

/-- A renamed graph has the document of the graph, or the same error. -/
theorem encode_eq (r : IsRenaming rules f g root h root') (hg : g.IsProper) (hh : h.IsProper) :
    h.encode rules root' = g.encode rules root := by
  have hvisits := visits_eq r hg hh
  rw [encode, encode, hvisits]
  cases hvs : visits g rules root with
  | error e => rfl
  | ok vs =>
    rw [hvs] at hvisits
    obtain ⟨fuel, ids, w⟩ := walk_visitLoop hg (.start g rules root) hvs
    obtain ⟨ids', hnd', hmem', -⟩ := exists_reached_of_visits hh hvisits
    -- being met more than once is counted alike, for the visits are paired
    have hshared : ∀ id, Reaches g rules root id →
        isShared (vs.map f) (f id) = isShared vs id := fun id hid =>
      isShared_map fun m hm => r.injective (w.reaches m (by simpa using hm)) hid
    have hrun := Emission.map_cells_run r hg hh w.nodup w.mem_iff_of_nil hnd' hmem'
      (fun id => (isShared_iff hg hvs id).2) (fun id => (isShared_iff hh hvisits id).2) hshared
      (.start g rules root _) (.start h rules root' _) (.start r.roots)
    -- the names of the nodes are gone from the cells
    have hread (x : Except EncodeError Emission) :
        (x.map fun e => Draft.read e.cells) = (x.map Emission.cells).map Draft.read := by
      cases x <;> rfl
    show Except.map _ _ = Except.map _ _
    rw [hread, hread, hrun]

end Graph.IsRenaming

/-! ### Hidden fields -/

/-- Without a renaming every value corresponds to itself. -/
theorem Value.corresponds_id : ∀ v : Value, v.Corresponds id v
  | .scalar s => .scalar s
  | .list items =>
    .sequence rfl rfl (List.forall₂_same.2 fun v _ => corresponds_id v)
  | .tuple items =>
    .sequence rfl rfl (List.forall₂_same.2 fun v _ => corresponds_id v)
  | .dict entries => by
    refine .dict rfl ?_
    rw [List.forall₂_map_left_iff, List.forall₂_map_right_iff, List.forall₂_same]
    intro e he
    have hsize := List.sizeOf_lt_of_mem he
    have hvalue : sizeOf e.2 < sizeOf e := by
      cases e
      simp
    exact corresponds_id e.2
  | .node m => .node m
  | .foreign t => .foreign t

/-- Setting a field keeps the values of the others. -/
theorem Node.get_set_of_ne (n : Node) {name other : String} (h : other ≠ name) (v : Value) :
    (n.set name v).get other = n.get other := by
  rw [get, get, get?, get?, set]
  congr 1
  induction n.fields with
  | nil => rfl
  | cons e rest ih =>
    obtain ⟨key, old⟩ := e
    rw [List.map_cons, Entries.get?, Entries.get?, ih]
    split_ifs with hkey hname
    · exact absurd (hkey.symm.trans hname) h
    · rfl
    · rfl

/-- The schema of a node is that of its field names. -/
theorem Node.schema_set (n : Node) (name : String) (v : Value) :
    (n.set name v).schema = n.schema := by
  rw [schema, schema, fieldNames_set]
  rfl

namespace Graph

variable {g h : Graph} {rules : Rules} {root root' : Value} {f : NodeId → NodeId}

/-- What setting a field makes of the nodes. -/
theorem node_setField (g : Graph) (id m : NodeId) (name : String) (v : Value) :
    (g.setField id name v).node m = if id = m then (g.node m).set name v else g.node m := by
  rw [setField, modify, node, node, Array.getD_eq_getD_getElem?, Array.getD_eq_getD_getElem?,
    Array.getElem?_modify]
  split_ifs with hid
  · cases g.nodes[m]? <;> rfl
  · rfl

theorem isProper_of_node (hnode : ∀ id, (g.node id).IsProper) : g.IsProper := by
  intro n hn
  obtain ⟨id, hid, rfl⟩ := Array.getElem_of_mem (Array.mem_toList_iff.1 hn)
  have heq : g.node id = g.nodes[id] := by simp [node, Array.getD, hid]
  exact heq ▸ hnode id

theorem isProper_setField (hg : g.IsProper) (id : NodeId) (name : String) (v : Value) :
    (g.setField id name v).IsProper := by
  refine isProper_of_node fun m => ?_
  have hnode := hg.node m
  rw [node_setField]
  split
  · exact ⟨by rw [Node.fieldNames_set]; exact hnode.nodup,
      by rw [Node.fieldNames_set]; exact hnode.idKey_notMem,
      by rw [Node.fieldNames_set]; exact hnode.refKey_notMem⟩
  · exact hnode

/-- A value in a field that the rules hide does not count. -/
theorem encode_setField_of_hidden (hg : g.IsProper) {id : NodeId} {name : String}
    (hhidden : ∀ names, rules.fieldsFor (g.node id).schema = .ok names → name ∉ names)
    (v : Value) (root : Value) :
    (g.setField id name v).encode rules root = g.encode rules root := by
  -- the identity renames the one graph to the other, as the rules see no difference
  have r : IsRenaming rules (fun m => m) g root (g.setField id name v) root := by
    refine ⟨root.corresponds_id, Set.injOn_id _, fun m _ => ?_, fun m _ names hnames k hk => ?_⟩
    · rw [node_setField]
      split
      · exact Node.schema_set ..
      · rfl
    · rw [node_setField]
      split
      · next hid =>
        subst hid
        have hne : k ≠ name := by
          rintro rfl
          exact hhidden names hnames hk
        rw [Node.get_set_of_ne _ hne]
        exact Value.corresponds_id _
      · exact Value.corresponds_id _
  exact r.encode_eq hg (isProper_setField hg id name v)

/-! ### Texts -/

/-- What is written of a graph depends on what the rules select of it alone: graphs that are one up
to a renaming of the nodes have one text, or one error. -/
theorem dump_of_isRenaming (hg : g.IsProper) (hh : h.IsProper)
    (r : IsRenaming rules f g root h root') : h.dump rules root' = g.dump rules root := by
  rw [dump, dump, r.encode_eq hg hh]

/-- Two nodes that refer to each other. -/
def chain : Graph where
  nodes := #[
    ⟨.custom "Scope" none, [("name", .text "outer"), ("next", .node 1), ("parent", .null)]⟩,
    ⟨.custom "Item" none, [("next", .list [.node 0, .node 1]), ("parent", .node 0)]⟩]

/-- The two nodes in other places, with other things in the fields that are hidden. -/
def movedChain : Graph where
  nodes := #[
    ⟨.custom "Other" none, [("parent", .foreign "socket")]⟩,
    ⟨.custom "Item" none, [("next", .tuple [.node 2, .node 1]),
      ("parent", .dict [(.null, .foreign "socket"), (.int 1, .node 2)])]⟩,
    ⟨.custom "Scope" none, [("name", .text "outer"), ("next", .node 1), ("parent", .node 0)]⟩]

/-- The chain is written alike from its other places. -/
theorem dump_movedChain :
    chain.IsProper ∧ movedChain.IsProper ∧
      IsRenaming .standard (Equiv.swap 0 2) chain (.node 0) movedChain (.node 2) ∧
      movedChain.dump .standard (.node 2) = chain.dump .standard (.node 0) := by
  have hproper : chain.IsProper := by
    intro n hn
    obtain rfl | rfl : n = _ ∨ n = _ := by simpa [chain] using hn
    · exact ⟨by decide, by decide, by decide⟩
    · exact ⟨by decide, by decide, by decide⟩
  have hproper' : movedChain.IsProper := by
    intro n hn
    obtain rfl | rfl | rfl : n = _ ∨ n = _ ∨ n = _ := by simpa [movedChain] using hn
    · exact ⟨by decide, by decide, by decide⟩
    · exact ⟨by decide, by decide, by decide⟩
    · exact ⟨by decide, by decide, by decide⟩
  have hreached : ∀ id, Reaches chain .standard (.node 0) id → id = 0 ∨ id = 1 := by
    intro id hid
    induction hid with
    | root hmem => exact .inl (by simpa using hmem)
    | field _ hmem ih =>
      rcases ih with rfl | rfl
      · have hout : outgoing chain .standard 0 = [1] := by decide
        rw [hout] at hmem
        exact .inr (List.mem_singleton.1 hmem)
      · have hout : outgoing chain .standard 1 = [0, 1] := by decide
        rw [hout] at hmem
        simpa using hmem
  have hrenaming :
      IsRenaming .standard (Equiv.swap 0 2) chain (.node 0) movedChain (.node 2) := by
    refine ⟨.node 0, (Equiv.injective _).injOn, fun id hid => ?_, fun id hid => ?_⟩
    · rcases hreached id hid with rfl | rfl <;> decide
    · rcases hreached id hid with rfl | rfl
      · intro names hnames
        obtain rfl : ["name", "next"] = names := Except.ok.inj hnames
        exact List.forall_mem_cons.2 ⟨.scalar _, List.forall_mem_singleton.2 (.node 1)⟩
      · intro names hnames
        obtain rfl : ["next"] = names := Except.ok.inj hnames
        exact List.forall_mem_singleton.2
          (.sequence rfl rfl (.cons (.node 0) (.cons (.node 1) .nil)))
  exact ⟨hproper, hproper', hrenaming, dump_of_isRenaming hproper hproper' hrenaming⟩

end Graph

end DeclGraph
