import DeclGraph.Proofs.Encoding.Emission
import DeclGraph.Proofs.Encoding.Sheet

/-!
# Drawing sheets

`Encoding.Drawing` says how values are written by recursion: parts before what comes next, a node
with its fields where it is first met, and a reference to its identifier wherever it is met again.
Nothing is asked of the keys of maps; entries with one text are drawn one after another, and then
the map is built of them.

`encode_drawn` says that `Graph.encode` gives the document of a sheet that is drawn so.  The machine
that writes is followed step by step: `Emission.Move` says what a step does, `exists_move` that every
step that succeeds does so, and `run_draws` goes through a run.
-/

namespace DeclGraph

namespace Encoding

/-- The sheets `us` are drawn of the values `vs`, one after another, when the nodes `S` have been
written before; in the end `S'` have been written. -/
inductive Drawing (g : Graph) (rules : Rules) (shared : NodeId → Bool) :
    List NodeId → List Value → List Sheet → List NodeId → Prop
  /-- Nothing is drawn. -/
  | nil (S : List NodeId) : Drawing g rules shared S [] [] S
  /-- A scalar is drawn as it is. -/
  | scalar {S S' s vs us} (rest : Drawing g rules shared S vs us S') :
    Drawing g rules shared S (.scalar s :: vs) (.scalar s :: us) S'
  /-- A list or a tuple is drawn item by item. -/
  | sequence {S M S' v items ps vs us} (hv : v.items? = some items)
    (parts : Drawing g rules shared S items ps M) (rest : Drawing g rules shared M vs us S') :
    Drawing g rules shared S (v :: vs) (.list ps :: us) S'
  /-- A map is built of its entries. -/
  | map {S M S' es ps vs us} (parts : Drawing g rules shared S (es.map Prod.snd) ps M)
    (rest : Drawing g rules shared M vs us S') :
    Drawing g rules shared S (.dict es :: vs)
      (.map (Entries.ofList ((es.map fun e => e.1.display).zip ps)) :: us) S'
  /-- A node that has an identifier is drawn as a reference. -/
  | again {S S' id r vs us} (ref : Emission.identifier? (S.filter shared) id = some r)
    (rest : Drawing g rules shared S vs us S') :
    Drawing g rules shared S (.node id :: vs) (.reference id r :: us) S'
  /-- A node that has not been written is drawn with its selected fields. -/
  | first {S M S' id ps vs us} (unwritten : id ∉ S) (fits : rules.Fits (g.node id).schema)
    (parts : Drawing g rules shared (S ++ [id])
      ((rules.projection (g.node id).schema).map (g.node id).get) ps M)
    (rest : Drawing g rules shared M vs us S') :
    Drawing g rules shared S (.node id :: vs)
      (.inline id (Emission.identifier? ((S ++ [id]).filter shared) id)
        ((rules.projection (g.node id).schema).zip ps) :: us) S'

namespace Drawing

variable {g : Graph} {rules : Rules} {shared : NodeId → Bool} {S S' : List NodeId}
  {vs : List Value} {us : List Sheet}

/-- What is drawn of two lists of values is drawn of the first and then of the second. -/
theorem split {vs₁ vs₂ : List Value} (h : Drawing g rules shared S (vs₁ ++ vs₂) us S') :
    ∃ us₁ us₂ M, us = us₁ ++ us₂ ∧ Drawing g rules shared S vs₁ us₁ M ∧
      Drawing g rules shared M vs₂ us₂ S' := by
  -- whatever stands first is drawn as in the whole list; only the rest of the list is divided
  induction vs₁ generalizing S us with
  | nil => exact ⟨[], us, S, rfl, .nil S, h⟩
  | cons v vs₁ ih =>
    rw [List.cons_append] at h
    cases h with
    | scalar rest =>
      obtain ⟨us₁, us₂, M, rfl, h₁, h₂⟩ := ih rest
      exact ⟨_ :: us₁, us₂, M, rfl, .scalar h₁, h₂⟩
    | sequence hv parts rest =>
      obtain ⟨us₁, us₂, M, rfl, h₁, h₂⟩ := ih rest
      exact ⟨_ :: us₁, us₂, M, rfl, .sequence hv parts h₁, h₂⟩
    | map parts rest =>
      obtain ⟨us₁, us₂, M, rfl, h₁, h₂⟩ := ih rest
      exact ⟨_ :: us₁, us₂, M, rfl, .map parts h₁, h₂⟩
    | again ref rest =>
      obtain ⟨us₁, us₂, M, rfl, h₁, h₂⟩ := ih rest
      exact ⟨_ :: us₁, us₂, M, rfl, .again ref h₁, h₂⟩
    | first unwritten fits parts rest =>
      obtain ⟨us₁, us₂, M, rfl, h₁, h₂⟩ := ih rest
      exact ⟨_ :: us₁, us₂, M, rfl, .first unwritten fits parts h₁, h₂⟩

/-- The sheets that are drawn of some values show them. -/
theorem shows (h : Drawing g rules shared S vs us S') :
    Sheet.Shows Entries.ofList g rules vs us := by
  induction h with
  | nil => exact .nil
  | scalar _ ih => exact .scalar ih
  | sequence hv _ _ ihp ih => exact .sequence hv ihp ih
  | map _ _ ihp ih => exact .map ihp ih
  | again _ _ ih => exact .reference ih
  | first _ _ _ _ ihp ih => exact .inline ihp ih

/-- Every value has one sheet. -/
theorem length_eq (h : Drawing g rules shared S vs us S') : us.length = vs.length :=
  h.shows.length_eq

end Drawing

namespace Emission

/-! ### One step -/

/-- The entries in front of the fields of a node. -/
theorem identifier?_concat {shared : NodeId → Bool} {S : List NodeId} {id : NodeId}
    (hid : id ∉ S) : identifier? ((S ++ [id]).filter shared) id
      = if shared id then some (identifier (S.filter shared).length) else none := by
  have hnot : id ∉ S.filter shared := fun h => hid (List.mem_filter.1 h).1
  have hnone : (S.filter shared).idxOf? id = none := List.idxOf?_eq_none_iff.2 hnot
  rw [identifier?, List.filter_append, idxOf?_append, hnone, Option.none_or]
  cases hs : shared id <;> simp [hs, List.idxOf?, List.findIdx?_cons]

/-- What a step does that writes `v` into `cell`, where `stack` is left and the nodes `S` have been
written: it goes on with the values `vs` when `S₁` have been written, and when the sheets `ps` are
drawn of them, then `draw ps` is drawn of `v`. -/
structure Move (g : Graph) (rules : Rules) (root : Value) (shared : NodeId → Bool) (fuel : Nat)
    (cells : Array Draft) (stack : List (Value × CellId)) (v : Value) (cell : CellId)
    (S : List NodeId) (e₁ : Emission) (S₁ : List NodeId) (vs : List Value)
    (draw : List Sheet → Sheet) : Prop where
  /-- New cells are laid out for the values. -/
  lays : ∃ named cs build, Lays ⟨cells, named, stack⟩ cell e₁ vs cs build ∧
    ∀ ps, (draw ps).json = build (ps.map Sheet.json)
  /-- The walk goes on. -/
  tracked : Tracked g rules root shared fuel e₁ S₁
  /-- The value is drawn when the values are. -/
  cons : ∀ {ps M rest us S'}, Drawing g rules shared S₁ vs ps M →
    Drawing g rules shared M rest us S' → Drawing g rules shared S (v :: rest) (draw ps :: us) S'

section Steps

variable {g : Graph} {rules : Rules} {root : Value} {shared : NodeId → Bool} {fuel : Nat}
  {cells : Array Draft} {named : List NodeId} {stack : List (Value × CellId)} {v : Value}
  {cell : CellId} {e e₁ e' : Emission} {S S₁ : List NodeId} {vs : List Value}
  {draw : List Sheet → Sheet}

/-- A step for a value that is no node. -/
theorem move_of_value (hv : ∀ id, v ≠ .node id) (hcell : cell < cells.size)
    (t : Tracked g rules root shared (fuel + 1) ⟨cells, named, (v, cell) :: stack⟩ S)
    (h : write g rules shared ⟨cells, named, stack⟩ v cell = .ok e₁) :
    ∃ vs draw, Move g rules root shared fuel cells stack v cell S e₁ S vs draw := by
  obtain ⟨hnamed, hstack⟩ := write_pass hv h
  have ht : Tracked g rules root shared fuel e₁ S := t.pass hv hnamed hstack
  cases v with
  | scalar c =>
    obtain rfl := Except.ok.inj h
    refine ⟨[], fun _ => .scalar c, ⟨named, [], _, (opens_fill _ hcell _).lays, fun _ => ?_⟩, ht,
      fun hp hr => ?_⟩
    · rw [Sheet.json]
    · cases hp
      exact .scalar hr
  | list items =>
    obtain rfl := Except.ok.inj h
    exact ⟨items, .list, ⟨named, _, _, (opens_openArray _ hcell items).lays, Sheet.json_list⟩, ht,
      fun hp hr => .sequence rfl hp hr⟩
  | tuple items =>
    obtain rfl := Except.ok.inj h
    exact ⟨items, .list, ⟨named, _, _, (opens_openArray _ hcell items).lays, Sheet.json_list⟩, ht,
      fun hp hr => .sequence rfl hp hr⟩
  | dict es =>
    obtain rfl := Except.ok.inj h
    obtain ⟨cs, l⟩ := lays_openObject ⟨cells, named, stack⟩ hcell
      (es.map fun x => (x.1.display, x.2))
    rw [List.map_map, List.map_map] at l
    refine ⟨es.map Prod.snd, fun ps =>
      .map (Entries.ofList ((es.map fun x => x.1.display).zip ps)),
      ⟨named, cs, _, l, fun ps => ?_⟩, ht, fun hp hr => .map hp hr⟩
    rw [Sheet.json_map, ← Entries.ofList_map, Sheet.map_json_zip]
    rfl
  | foreign t => exact absurd h (by simp [write])
  | node id => exact absurd rfl (hv id)

/-- A step for a node that has an identifier. -/
theorem move_of_known {id : NodeId} {r : String} (hcell : cell < cells.size)
    (t : Tracked g rules root shared (fuel + 1) ⟨cells, named, (.node id, cell) :: stack⟩ S)
    (hid : identifier? named id = some r)
    (h : write g rules shared ⟨cells, named, stack⟩ (.node id) cell = .ok e₁) :
    ∃ vs draw, Move g rules root shared fuel cells stack (.node id) cell S e₁ S vs draw := by
  obtain ⟨hnamed, hstack⟩ := write_again hid h
  have ht : Tracked g rules root shared fuel e₁ S := t.again hid hnamed hstack
  simp only [write, hid] at h
  obtain rfl := Except.ok.inj h
  have href : identifier? (S.filter shared) id = some r := by
    rwa [show named = S.filter shared from t.named] at hid
  refine ⟨[], fun _ => .reference id r, ⟨named, [], _, (opens_fill _ hcell _).lays, fun _ => ?_⟩, ht,
    fun hp hr => ?_⟩
  · rw [Sheet.json]
  · cases hp
    exact .again href hr

/-- A step for a node that has no identifier. -/
theorem move_of_new (hg : g.IsProper) {ids : List NodeId} (hnd : ids.Nodup)
    (hmem : ∀ m, m ∈ ids ↔ Reaches g rules root m)
    (hshared : ∀ id, ReachedTwice g rules root id → shared id = true) {id : NodeId}
    (hcell : cell < cells.size)
    (t : Tracked g rules root shared (fuel + 1) ⟨cells, named, (.node id, cell) :: stack⟩ S)
    (hid : identifier? named id = none)
    (h : write g rules shared ⟨cells, named, stack⟩ (.node id) cell = .ok e₁) :
    ∃ vs draw, Move g rules root shared fuel cells stack (.node id) cell S e₁ (S ++ [id]) vs
      draw := by
  have hout : id ∉ S := t.notMem_followed hnd hmem hshared hid
  obtain ⟨names, hnames, hnamed, hstack⟩ := write_follow hid h
  have ht : Tracked g rules root shared fuel e₁ (S ++ [id]) :=
    t.follow hg hnd hmem hshared hid hnames hnamed hstack
  obtain ⟨hfits, rfl⟩ := Rules.fieldsFor_eq_ok_iff.1 hnames
  set names := rules.projection (g.node id).schema with hprojection
  set entries := names.map fun name => (name, (g.node id).get name) with hentries
  have hsub : names.Sublist (g.node id).fieldNames := rules.sublist_projection _
  have hkeys : entries.map Prod.fst = names := (List.map_map ..).trans (List.map_id _)
  -- with or without an identifier, an object is opened whose keys are told apart
  obtain ⟨lead, named₁, hlead, hnodup, rfl⟩ : ∃ lead named₁,
      lead = ((identifier? ((S ++ [id]).filter shared) id).toList.map fun r =>
        (idKey, Json.string r)) ∧ (lead.map Prod.fst ++ names).Nodup ∧
      openObject ⟨cells, named₁, stack⟩ cell lead entries = e₁ := by
    rw [identifier?_concat hout, ← show named = S.filter shared from t.named]
    have hfields : names.Nodup := hsub.nodup (hg.node id).nodup
    have hidKey : idKey ∉ names := fun hmem => (hg.node id).idKey_notMem (hsub.subset hmem)
    rw [write_node_of_none hid hnames] at h
    cases hs : shared id with
    | true =>
      rw [hs, if_pos rfl] at h
      exact ⟨_, _, rfl, List.nodup_cons.2 ⟨hidKey, hfields⟩, Except.ok.inj h⟩
    | false =>
      rw [hs, if_neg (by simp)] at h
      exact ⟨_, _, rfl, hfields, Except.ok.inj h⟩
  have o := opens_openObject ⟨cells, named₁, stack⟩ hcell lead entries hkeys
    (List.map_map ..) hnodup
  refine ⟨names.map (g.node id).get, fun ps =>
    .inline id (identifier? ((S ++ [id]).filter shared) id) (names.zip ps),
    ⟨named₁, _, _, o.lays, fun ps => ?_⟩, ht, fun hp hr => .first hout hfits hp hr⟩
  rw [Sheet.json_inline, Sheet.map_json_zip, hlead]

/-- Every step that succeeds is one of these. -/
theorem exists_move (hg : g.IsProper) {ids : List NodeId} (hnd : ids.Nodup)
    (hmem : ∀ m, m ∈ ids ↔ Reaches g rules root m)
    (hshared : ∀ id, ReachedTwice g rules root id → shared id = true) (hcell : cell < cells.size)
    (t : Tracked g rules root shared (fuel + 1) ⟨cells, named, (v, cell) :: stack⟩ S)
    (h : write g rules shared ⟨cells, named, stack⟩ v cell = .ok e₁) :
    ∃ S₁ vs draw, Move g rules root shared fuel cells stack v cell S e₁ S₁ vs draw := by
  by_cases hv : ∀ id, v ≠ .node id
  · exact ⟨S, move_of_value hv hcell t h⟩
  · push Not at hv
    obtain ⟨id, rfl⟩ := hv
    cases hid : identifier? named id with
    | some r => exact ⟨S, move_of_known hcell t hid h⟩
    | none => exact ⟨S ++ [id], move_of_new hg hnd hmem hshared hcell t hid h⟩

/-! ### A run -/

/-- What a run makes of the values on its stack: sheets are drawn of them, and their documents are
written into the cells one after another. -/
structure Draws (g : Graph) (rules : Rules) (shared : NodeId → Bool) (e e' : Emission)
    (S : List NodeId) (us : List Sheet) (S' : List NodeId) : Prop where
  /-- The sheets are drawn. -/
  drawing : Drawing g rules shared S (e.stack.map Prod.fst) us S'
  /-- Their documents are in the cells. -/
  settles : Settles e'.cells (e.stack.map Prod.snd) (us.map Sheet.json)
  /-- No other cell changes. -/
  keeps : Keeps e e'

theorem draws_nil (cells : Array Draft) (named S : List NodeId) :
    Draws g rules shared ⟨cells, named, []⟩ ⟨cells, named, []⟩ S [] S :=
  ⟨.nil S, .nil, le_rfl, fun _ _ _ => rfl⟩

/-- A step is followed by what is drawn of its values and of the rest. -/
theorem Move.draws {S' : List NodeId} {us : List Sheet}
    (m : Move g rules root shared fuel cells stack v cell S e₁ S₁ vs draw)
    (hlt : ∀ c ∈ cell :: stack.map Prod.snd, c < cells.size)
    (d : Draws g rules shared e₁ e' S₁ us S') :
    ∃ us, Draws g rules shared ⟨cells, named, (v, cell) :: stack⟩ e' S us S' := by
  obtain ⟨_, cs, build, l, hbuild⟩ := m.lays
  have hdrawing := d.drawing
  rw [l.map_fst_stack] at hdrawing
  obtain ⟨ps, us, M, rfl, hps, hus⟩ := hdrawing.split
  have hsettles := d.settles
  rw [List.map_append] at hsettles
  refine ⟨draw ps :: us, m.cons hps hus, ?_, l.keeps d.keeps⟩
  rw [List.map_cons, List.map_cons, hbuild]
  exact l.settles hlt d.keeps (by rw [List.length_map, hps.length_eq, l.length]) hsettles

/-- A run draws the values on its stack, if it succeeds. -/
theorem run_draws (hg : g.IsProper) {ids : List NodeId} (hnd : ids.Nodup)
    (hmem : ∀ m, m ∈ ids ↔ Reaches g rules root m)
    (hshared : ∀ id, ReachedTwice g rules root id → shared id = true)
    (t : Tracked g rules root shared fuel e S)
    (hlt : ∀ c ∈ e.stack.map Prod.snd, c < e.cells.size)
    (h : run g rules shared fuel e = .ok e') : ∃ us S', Draws g rules shared e e' S us S' := by
  induction fuel generalizing e S with
  | zero =>
    obtain ⟨cells, named, stack⟩ := e
    obtain rfl := t.stack_eq_nil
    obtain rfl := Except.ok.inj h
    exact ⟨[], S, draws_nil cells named S⟩
  | succ fuel ih =>
    obtain ⟨cells, named, stack⟩ := e
    cases stack with
    | nil =>
      obtain rfl := Except.ok.inj h
      exact ⟨[], S, draws_nil cells named S⟩
    | cons top stack =>
      obtain ⟨v, cell⟩ := top
      obtain ⟨e₁, hwrite, h⟩ := exists_write_of_run h
      obtain ⟨S₁, vs, draw, m⟩ :=
        exists_move hg hnd hmem hshared (hlt cell List.mem_cons_self) t hwrite
      -- the cells that the step opens are new, so all cells on the stack still exist
      obtain ⟨_, _, _, l, -⟩ := m.lays
      have hlt₁ := l.lt fun c hc => hlt c (List.mem_cons_of_mem _ hc)
      obtain ⟨us, S', d⟩ := ih m.tracked hlt₁ h
      obtain ⟨us, d⟩ := m.draws hlt d
      exact ⟨us, S', d⟩

end Steps

end Emission

/-- What `Graph.encode` gives is the document of a sheet that is drawn of the root, in which the
nodes are shared that are reached more than once. -/
theorem encode_drawn {g : Graph} {rules : Rules} {root : Value} {j : Json} (hg : g.IsProper)
    (h : g.encode rules root = .ok j) :
    ∃ shared sheet S, (∀ id, shared id = true ↔ ReachedTwice g rules root id) ∧
      Drawing g rules shared [] [root] [sheet] S ∧ sheet.json = j := by
  obtain ⟨vs, e, hvisits, hrun, rfl⟩ := Graph.exists_run_of_encode h
  obtain ⟨ids, hnd, hmem, -⟩ := exists_reached_of_visits hg hvisits
  have hshared := isShared_iff hg hvisits
  obtain ⟨us, S, d⟩ := Emission.run_draws hg hnd hmem (fun id => (hshared id).2)
    (.start g rules root (isShared vs)) (by simp [Emission.start]) hrun
  -- the stack starts with the root alone, so there is one sheet, and its cell is the first
  have hlen : us.length = 1 := d.drawing.length_eq
  obtain ⟨sheet, rfl⟩ := List.length_eq_one_iff.1 hlen
  have hreads := d.settles.forall₂ (List.nodup_singleton 0)
  obtain ⟨hread, -⟩ := List.forall₂_cons.1 hreads
  exact ⟨isShared vs, sheet, S, hshared, d.drawing, hread.read.symm⟩

end Encoding

end DeclGraph
