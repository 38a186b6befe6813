import DeclGraph.Proofs.Encoding.Walk
import DeclGraph.Proofs.Encoding.Written

/-!
# Writing is a walk

What is still to be written at some moment are the values that a walk has left to visit, and the
nodes with an identifier are the shared ones among those that the walk has followed
(`Emission.Tracked`).  Every step of writing keeps it so (`Emission.Tracked.step`), for a node
without an identifier has not been followed: it would have been reached twice, and be shared.
-/

namespace DeclGraph

namespace Encoding

namespace Emission

variable {g : Graph} {rules : Rules} {root : Value} {shared : NodeId → Bool} {fuel : Nat}
  {e e₁ : Emission} {cells : Array Draft} {named followed : List NodeId}
  {stack : List (Value × CellId)} {v : Value} {cell : CellId}

/-! ### One value -/

/-- What is written of a list or a tuple. -/
theorem write_of_items? {items : List Value} (hv : v.items? = some items) (e : Emission)
    (cell : CellId) : write g rules shared e v cell = .ok (e.openArray cell items) := by
  rcases Value.eq_of_items? hv with rfl | rfl <;> rfl

/-- What is written of a node that has no identifier. -/
theorem write_node_of_none {id : NodeId} (hid : identifier? e.named id = none)
    {names : List String} (hnames : rules.fieldsFor (g.node id).schema = .ok names)
    (cell : CellId) : write g rules shared e (.node id) cell
      = .ok (if shared id then
          { e with named := e.named ++ [id] }.openObject cell
            [(idKey, .string (identifier e.named.length))]
            (names.map fun name => (name, (g.node id).get name))
        else e.openObject cell [] (names.map fun name => (name, (g.node id).get name))) := by
  simp only [write, hid, hnames]
  split <;> rfl

theorem map_fst_stack_openArray (e : Emission) (cell : CellId) (items : List Value) :
    (e.openArray cell items).stack.map Prod.fst = items ++ e.stack.map Prod.fst := by
  simp [openArray, List.map_fst_zip]

theorem map_fst_stack_openObject (e : Emission) (cell : CellId) (leading : List (String × Json))
    (entries : List (String × Value)) :
    (e.openObject cell leading entries).stack.map Prod.fst
      = entries.map Prod.snd ++ e.stack.map Prod.fst := by
  simp [openObject, Function.comp_def]

/-- After a value that is no node its parts come next. -/
theorem write_pass (hv : ∀ id, v ≠ .node id)
    (hwrite : write g rules shared ⟨cells, named, stack⟩ v cell = .ok e₁) :
    e₁.named = named ∧ e₁.stack.map Prod.fst = parts v ++ stack.map Prod.fst := by
  cases v with
  | scalar s =>
    obtain rfl := Except.ok.inj hwrite
    exact ⟨rfl, rfl⟩
  | list items =>
    obtain rfl := Except.ok.inj hwrite
    exact ⟨rfl, map_fst_stack_openArray ..⟩
  | tuple items =>
    obtain rfl := Except.ok.inj hwrite
    exact ⟨rfl, map_fst_stack_openArray ..⟩
  | dict entries =>
    obtain rfl := Except.ok.inj hwrite
    refine ⟨rfl, ?_⟩
    rw [map_fst_stack_openObject, List.map_map]
    rfl
  | foreign typeName => exact absurd hwrite (by simp [write])
  | node id => exact absurd rfl (hv id)

/-- After a node with an identifier comes what comes next anyway. -/
theorem write_again {id : NodeId} {ref : String} (hid : identifier? named id = some ref)
    (hwrite : write g rules shared ⟨cells, named, stack⟩ (.node id) cell = .ok e₁) :
    e₁.named = named ∧ e₁.stack = stack := by
  simp only [write, hid] at hwrite
  obtain rfl := Except.ok.inj hwrite
  exact ⟨rfl, rfl⟩

/-- After a node without an identifier the values in its selected fields come next. -/
theorem write_follow {id : NodeId} (hid : identifier? named id = none)
    (hwrite : write g rules shared ⟨cells, named, stack⟩ (.node id) cell = .ok e₁) :
    ∃ names, rules.fieldsFor (g.node id).schema = .ok names ∧
      e₁.named = (if shared id then named ++ [id] else named) ∧
      e₁.stack.map Prod.fst = names.map (g.node id).get ++ stack.map Prod.fst := by
  cases hnames : rules.fieldsFor (g.node id).schema with
  | error err =>
    simp only [write, hid, hnames] at hwrite
    exact absurd hwrite (by simp)
  | ok names =>
    rw [write_node_of_none hid hnames] at hwrite
    obtain rfl := Except.ok.inj hwrite
    refine ⟨names, rfl, ?_, ?_⟩
    · split <;> rfl
    · split <;> (rw [map_fst_stack_openObject, List.map_map]; rfl)

theorem run_nil (fuel : Nat) (cells : Array Draft) (named : List NodeId) :
    run g rules shared fuel ⟨cells, named, []⟩ = .ok ⟨cells, named, []⟩ := by
  cases fuel <;> rfl

/-- A run that succeeds with a value on the stack writes it, and goes on from there. -/
theorem exists_write_of_run {e' : Emission}
    (h : run g rules shared (fuel + 1) ⟨cells, named, (v, cell) :: stack⟩ = .ok e') :
    ∃ e₁, write g rules shared ⟨cells, named, stack⟩ v cell = .ok e₁ ∧
      run g rules shared fuel e₁ = .ok e' := by
  rw [run] at h
  dsimp only at h
  split at h
  · next e₁ hwrite => exact ⟨e₁, hwrite, h⟩
  · exact absurd h (by simp)

/-! ### The walk -/

/-- The state of a walk that writes: its stack is what is left to visit, and the nodes with an
identifier are the shared ones among those that were followed. -/
structure Tracked (g : Graph) (rules : Rules) (root : Value) (shared : NodeId → Bool) (fuel : Nat)
    (e : Emission) (followed : List NodeId) : Prop where
  /-- The values on the stack are left to visit. -/
  walk : ∃ visits, Walk g rules root fuel (e.stack.map Prod.fst) visits followed
  /-- The shared nodes among those that were followed have an identifier. -/
  named : e.named = followed.filter shared

namespace Tracked

theorem start (g : Graph) (rules : Rules) (root : Value) (shared : NodeId → Bool) :
    Tracked g rules root shared (steps g root) (.start root) [] :=
  ⟨⟨[], .start g rules root⟩, rfl⟩

theorem reaches_of_named (t : Tracked g rules root shared fuel e followed) :
    ∀ id ∈ e.named, Reaches g rules root id := by
  obtain ⟨visits, w⟩ := t.walk
  intro id hid
  rw [t.named] at hid
  exact w.reaches id (List.mem_append_left _ ((w.mem_iff id).1 (List.mem_filter.1 hid).1))

theorem reaches_of_node {id : NodeId}
    (t : Tracked g rules root shared fuel ⟨cells, named, (.node id, cell) :: stack⟩ followed) :
    Reaches g rules root id := by
  obtain ⟨visits, w⟩ := t.walk
  exact w.reaches id (by simp)

theorem stack_eq_nil (t : Tracked g rules root shared 0 e followed) : e.stack = [] := by
  obtain ⟨visits, w⟩ := t.walk
  exact List.map_eq_nil_iff.1 w.stack_eq_nil

/-- While there is a value on the stack, there is a step for it. -/
theorem exists_cons {values : List Value} (t : Tracked g rules root shared fuel e followed)
    (hstack : e.stack.map Prod.fst = v :: values) :
    ∃ cells named cell stack fuel', e = ⟨cells, named, (v, cell) :: stack⟩ ∧ fuel = fuel' + 1 ∧
      stack.map Prod.fst = values := by
  obtain ⟨cells, named, stack⟩ := e
  obtain ⟨x, stack, rfl, rfl, hvalues⟩ := List.map_eq_cons_iff.1 hstack
  cases fuel with
  | zero => exact absurd t.stack_eq_nil (by simp)
  | succ fuel => exact ⟨cells, named, x.2, stack, fuel, rfl, rfl, hvalues⟩

/-- A value that is no node is replaced by its parts. -/
theorem pass
    (t : Tracked g rules root shared (fuel + 1) ⟨cells, named, (v, cell) :: stack⟩ followed)
    (hv : ∀ id, v ≠ .node id) (hnamed : e₁.named = named)
    (hstack : e₁.stack.map Prod.fst = parts v ++ stack.map Prod.fst) :
    Tracked g rules root shared fuel e₁ followed := by
  obtain ⟨visits, w⟩ := t.walk
  exact ⟨⟨visits, w.pass hv (by rw [hstack])⟩, hnamed.trans t.named⟩

/-- A node with an identifier is not followed again. -/
theorem again {id : NodeId} {ref : String}
    (t : Tracked g rules root shared (fuel + 1) ⟨cells, named, (.node id, cell) :: stack⟩ followed)
    (hid : identifier? named id = some ref) (hnamed : e₁.named = named)
    (hstack : e₁.stack = stack) : Tracked g rules root shared fuel e₁ followed := by
  obtain ⟨visits, w⟩ := t.walk
  have hin : id ∈ named := mem_of_identifier? hid
  rw [show named = _ from t.named] at hin
  exact ⟨⟨_, hstack ▸ w.again (List.mem_filter.1 hin).1⟩, hnamed.trans t.named⟩

/-- A node without an identifier has not been followed: if it had been, it would be reached more
than once and have one. -/
theorem notMem_followed {ids : List NodeId} (hnd : ids.Nodup)
    (hmem : ∀ m, m ∈ ids ↔ Reaches g rules root m)
    (hshared : ∀ id, ReachedTwice g rules root id → shared id = true) {id : NodeId}
    (t : Tracked g rules root shared fuel ⟨cells, named, (.node id, cell) :: stack⟩ followed)
    (hid : identifier? named id = none) : id ∉ followed := by
  intro hin
  obtain ⟨visits, w⟩ := t.walk
  have hnot : id ∉ named := List.idxOf?_eq_none_iff.1 (Option.map_eq_none_iff.1 hid)
  rw [show named = _ from t.named] at hnot
  exact hnot (List.mem_filter.2 ⟨hin, hshared id (w.reachedTwice_of_mem hin hnd hmem)⟩)

/-- A node without an identifier is followed. -/
theorem follow (hg : g.IsProper) {ids : List NodeId} (hnd : ids.Nodup)
    (hmem : ∀ m, m ∈ ids ↔ Reaches g rules root m)
    (hshared : ∀ id, ReachedTwice g rules root id → shared id = true) {id : NodeId}
    (t : Tracked g rules root shared (fuel + 1) ⟨cells, named, (.node id, cell) :: stack⟩ followed)
    (hid : identifier? named id = none) {names : List String}
    (hnames : rules.fieldsFor (g.node id).schema = .ok names)
    (hnamed : e₁.named = if shared id then named ++ [id] else named)
    (hstack : e₁.stack.map Prod.fst = names.map (g.node id).get ++ stack.map Prod.fst) :
    Tracked g rules root shared fuel e₁ (followed ++ [id]) := by
  have hout := t.notMem_followed hnd hmem hshared hid
  obtain ⟨visits, w⟩ := t.walk
  refine ⟨⟨_, w.follow hg hout hnames (by rw [hstack])⟩, ?_⟩
  rw [hnamed, List.filter_append, ← show named = _ from t.named]
  cases hs : shared id <;> simp [hs]

/-- Every step that succeeds leaves the state tracked. -/
theorem step (hg : g.IsProper) {ids : List NodeId} (hnd : ids.Nodup)
    (hmem : ∀ m, m ∈ ids ↔ Reaches g rules root m)
    (hshared : ∀ id, ReachedTwice g rules root id → shared id = true)
    (t : Tracked g rules root shared (fuel + 1) ⟨cells, named, (v, cell) :: stack⟩ followed)
    (hwrite : write g rules shared ⟨cells, named, stack⟩ v cell = .ok e₁) :
    ∃ followed₁, Tracked g rules root shared fuel e₁ followed₁ := by
  by_cases hv : ∀ id, v ≠ .node id
  · obtain ⟨hnamed, hstack⟩ := write_pass hv hwrite
    exact ⟨followed, t.pass hv hnamed hstack⟩
  · push Not at hv
    obtain ⟨id, rfl⟩ := hv
    cases hid : identifier? named id with
    | some ref =>
      obtain ⟨hnamed, hstack⟩ := write_again hid hwrite
      exact ⟨followed, t.again hid hnamed hstack⟩
    | none =>
      obtain ⟨names, hnames, hnamed, hstack⟩ := write_follow hid hwrite
      exact ⟨followed ++ [id], t.follow hg hnd hmem hshared hid hnames hnamed hstack⟩

end Tracked

end Emission

end Encoding

end DeclGraph
