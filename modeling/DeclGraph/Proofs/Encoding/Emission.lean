import DeclGraph.Proofs.Encoding.Overwriting
import DeclGraph.Proofs.Encoding.Tracking

/-!
# Writing with cells

`Emission.run` fills cells in the order in which a stack gives them out.  `Emission.Step` says what
one step does when a machine is `Emission.Ready`, and `Ready.step` that every step that succeeds
does so.  So in the end every cell reads as what is written of its value (`Ready.yields`), and
`encode_written` says what `Graph.encode` gives in these terms.
-/

namespace DeclGraph

namespace Encoding

namespace Emission

open Draft

variable {e e₁ : Emission} {cell : Nat}

/-! ### Runs -/

namespace Opens

variable {cells : Array Draft} {named named' : List NodeId} {stack : List (Value × CellId)}
  {v : Value} {e' : Emission} {vs : List Value} {cs : List Nat} {build : List Json → Json}

theorem map_fst_stack (o : Opens e cell e₁ vs cs build) :
    e₁.stack.map Prod.fst = vs ++ e.stack.map Prod.fst :=
  o.lays.map_fst_stack

theorem map_snd_stack (o : Opens e cell e₁ vs cs build) :
    e₁.stack.map Prod.snd = cs ++ e.stack.map Prod.snd :=
  o.lays.map_snd_stack

/-- The cells on the stack stay apart. -/
theorem tidy (o : Opens ⟨cells, named', stack⟩ cell e₁ vs cs build)
    (h : Tidy ⟨cells, named, (v, cell) :: stack⟩) : e₁.Tidy := by
  have hnd : (stack.map Prod.snd).Nodup := (List.nodup_cons.1 h.nodup).2
  have hlt : ∀ c ∈ stack.map Prod.snd, c < cells.size := fun c hc =>
    h.lt c (List.mem_cons_of_mem _ hc)
  constructor
  · rw [o.map_snd_stack]
    -- the cells that were opened are new, and those that are left on the stack are older
    refine List.nodup_append.2 ⟨o.nodup, hnd, fun a ha b hb hab => ?_⟩
    have h₁ := (o.fresh a ha).1
    have h₂ := hlt b hb
    rw [hab] at h₁
    exact absurd h₂ (not_lt.2 h₁)
  · intro c hc
    rw [o.map_snd_stack] at hc
    rcases List.mem_append.1 hc with hc | hc
    · exact (o.fresh c hc).2
    · exact lt_of_lt_of_le (hlt c hc) o.size

theorem keeps (o : Opens ⟨cells, named', stack⟩ cell e₁ vs cs build) (hk : Keeps e₁ e') :
    Keeps ⟨cells, named, (v, cell) :: stack⟩ e' :=
  o.lays.keeps hk

/-- When the new cells read as `us` in the end, the cell of the step reads as `build us`. -/
theorem readsAs (o : Opens ⟨cells, named', stack⟩ cell e₁ vs cs build)
    (h : Tidy ⟨cells, named, (v, cell) :: stack⟩) (hk : Keeps e₁ e') {us : List Json}
    (hus : List.Forall₂ (ReadsAs e'.cells) cs us) : ReadsAs e'.cells cell (build us) := by
  have hlt : cell < cells.size := h.lt cell List.mem_cons_self
  refine o.reads _ us (fun c hc hor => hk.frame c hc ?_) hus
  rw [o.map_snd_stack, List.mem_append, not_or]
  rcases hor with rfl | ⟨hge, hcs⟩
  · exact ⟨fun hcs => absurd hlt (not_lt.2 (o.fresh _ hcs).1), (List.nodup_cons.1 h.nodup).1⟩
  · exact ⟨hcs, fun hmem => absurd (h.lt c (List.mem_cons_of_mem _ hmem)) (not_lt.2 hge)⟩

end Opens

/-- What a run makes of the values on its stack: `ws` are written of them, their cells read so in
the end, and the walk is over. -/
structure Yields (P : List Scalar → Prop) (g : Graph) (rules : Rules) (root : Value)
    (shared : NodeId → Bool) (e e' : Emission) (S : Record) (items : List (Site × Value))
    (ws : List Json) (S' : Record) : Prop where
  /-- The values are written. -/
  written : Written P g rules shared S items ws S'
  /-- Their cells read as what is written. -/
  reads : List.Forall₂ (ReadsAs e'.cells) (e.stack.map Prod.snd) ws
  /-- No other cell changes. -/
  keeps : Keeps e e'
  /-- The walk is over. -/
  finished : ∃ fuel visits, Walk g rules root fuel [] visits S'.nodes

/-- A machine that is ready to write `items`: its stack is what a walk has to visit, and its cells
are tidy. -/
structure Ready (P : List Scalar → Prop) (g : Graph) (rules : Rules) (root : Value)
    (shared : NodeId → Bool) (fuel : Nat) (e : Emission) (S : Record)
    (items : List (Site × Value)) : Prop where
  /-- The values on the stack are those that a walk has to visit. -/
  walk : ∃ visits, Walk g rules root fuel (e.stack.map Prod.fst) visits S.nodes
  /-- The nodes with an identifier are the shared ones among those that have been written. -/
  named : e.named = S.named shared
  /-- The values on the stack are those to be written. -/
  items : items.map Prod.snd = e.stack.map Prod.fst
  /-- In their maps the keys have the property. -/
  maps : ∀ v ∈ e.stack.map Prod.fst, v.AllMaps P
  /-- The cells are told apart. -/
  tidy : e.Tidy

/-- What a step does that writes `item` into `cell`, where `stack` is left: it gives the machine
`e₁`, which goes on with `parts` behind what `S₁` records.  When `us` are written of them, then
`build us` is written of the item. -/
structure Step (P : List Scalar → Prop) (g : Graph) (rules : Rules) (root : Value)
    (shared : NodeId → Bool) (fuel : Nat) (cells : Array Draft) (stack : List (Value × CellId))
    (cell : CellId) (S : Record) (item : Site × Value) (e₁ : Emission) (S₁ : Record)
    (parts : List (Site × Value)) (build : List Json → Json) : Prop where
  /-- The cell is opened. -/
  opens : ∃ named cs, Opens ⟨cells, named, stack⟩ cell e₁ (parts.map Prod.snd) cs build
  /-- The walk goes on. -/
  walk : ∃ visits, Walk g rules root fuel (parts.map Prod.snd ++ stack.map Prod.fst) visits S₁.nodes
  /-- Identifiers are given to the shared nodes. -/
  named : e₁.named = S₁.named shared
  /-- In the maps of the parts the keys have the property. -/
  maps : ∀ v ∈ parts.map Prod.snd, v.AllMaps P
  /-- The item is written when its parts are. -/
  cons : ∀ {items us ws M S'}, us.length = parts.length →
    Written P g rules shared S₁ parts us M → Written P g rules shared M items ws S' →
    Written P g rules shared S (item :: items) (build us :: ws) S'

section Steps

variable {P : List Scalar → Prop} {g : Graph} {rules : Rules} {root : Value}
  {shared : NodeId → Bool} {fuel : Nat} {cells : Array Draft} {named : List NodeId}
  {stack : List (Value × CellId)} {v : Value} {id : NodeId} {S S₁ : Record} {s : Site}
  {item : Site × Value} {parts items : List (Site × Value)} {build : List Json → Json}

/-- A step leaves the machine ready for the parts and then the rest. -/
theorem Ready.next
    (r : Ready P g rules root shared (fuel + 1) ⟨cells, named, (v, cell) :: stack⟩ S
      (item :: items))
    (t : Step P g rules root shared fuel cells stack cell S item e₁ S₁ parts build) :
    Ready P g rules root shared fuel e₁ S₁ (parts ++ items) := by
  obtain ⟨_, _, o⟩ := t.opens
  refine ⟨o.map_fst_stack ▸ t.walk, t.named, ?_, fun u hu => ?_, o.tidy r.tidy⟩
  · rw [List.map_append, o.map_fst_stack, (List.cons.inj r.items).2]
  · rw [o.map_fst_stack] at hu
    exact (List.mem_append.1 hu).elim (t.maps u) fun h => r.maps u (List.mem_cons_of_mem _ h)

/-- A step is followed by what is written of its parts and of the rest. -/
theorem Step.yields {e' : Emission} {S' : Record} {ws : List Json}
    (t : Step P g rules root shared fuel cells stack cell S item e₁ S₁ parts build)
    (h : Tidy ⟨cells, named, (v, cell) :: stack⟩)
    (y : Yields P g rules root shared e₁ e' S₁ (parts ++ items) ws S') :
    ∃ ws, Yields P g rules root shared ⟨cells, named, (v, cell) :: stack⟩ e' S (item :: items) ws
      S' := by
  obtain ⟨_, cs, o⟩ := t.opens
  obtain ⟨us, ws', M, rfl, hus, hws⟩ := y.written.split
  have hlen : us.length = cs.length := by rw [hus.length_eq, o.length, List.length_map]
  -- the cells of the parts are on top of the stack, so the first `us` stand for them
  have hreads := y.reads
  rw [o.map_snd_stack] at hreads
  have hus' : List.Forall₂ (ReadsAs e'.cells) cs us := by
    have := List.forall₂_take cs.length hreads
    rwa [List.take_left, List.take_left' hlen] at this
  have hws' : List.Forall₂ (ReadsAs e'.cells) (stack.map Prod.snd) ws' := by
    have := List.forall₂_drop cs.length hreads
    rwa [List.drop_left, List.drop_left' hlen] at this
  exact ⟨build us :: ws', t.cons hus.length_eq hus hws,
    .cons (o.readsAs h y.keeps hus') hws', o.keeps y.keeps, y.finished⟩

/-! ### Each step -/

/-- A node in front of which its identifier is written has its keys told apart. -/
theorem nodup_keys_leading {n : Node} (hn : n.IsProper) {names : List String}
    (h : rules.fieldsFor n.schema = .ok names) (shared : NodeId → Bool) (S : Record)
    (id : NodeId) : ((S.leading shared id).map Prod.fst ++ names).Nodup := by
  have hsub := sublist_of_fieldsFor h
  unfold Record.leading
  split
  · exact List.nodup_cons.2 ⟨fun hid => hn.idKey_notMem (hsub.subset hid), hsub.nodup hn.nodup⟩
  · exact hsub.nodup hn.nodup

/-- Writing is a walk through the nodes that have been written. -/
theorem Ready.tracked (r : Ready P g rules root shared fuel e S items) :
    Tracked g rules root shared fuel e S.nodes :=
  ⟨r.walk, r.named⟩

theorem Ready.lt (r : Ready P g rules root shared fuel ⟨cells, named, (v, cell) :: stack⟩ S items) :
    cell < cells.size :=
  r.tidy.lt cell List.mem_cons_self

/-- Without an identifier a node has not been written. -/
theorem Ready.notMem_nodes {ids : List NodeId} (hnd : ids.Nodup)
    (hmem : ∀ m, m ∈ ids ↔ Reaches g rules root m)
    (hshared : ∀ id, ReachedTwice g rules root id → shared id = true)
    (r : Ready P g rules root shared fuel ⟨cells, named, (.node id, cell) :: stack⟩ S items)
    (hid : identifier? named id = none) : id ∉ S.nodes :=
  r.tracked.notMem_followed hnd hmem hshared hid

theorem Ready.step_scalar {c : Scalar}
    (r : Ready P g rules root shared (fuel + 1) ⟨cells, named, (.scalar c, cell) :: stack⟩ S
      ((s, .scalar c) :: items)) :
    Step P g rules root shared fuel cells stack cell S (s, .scalar c)
      (fill ⟨cells, named, stack⟩ cell (scalarJson c)) S [] fun _ => scalarJson c where
  opens := ⟨named, [], opens_fill _ r.lt _⟩
  walk := r.walk.imp fun _ w => w.pass nofun (List.Perm.refl _)
  named := r.named
  maps := by simp
  cons _ hp hr := by cases hp; exact .scalar hr

theorem Ready.step_sequence {vs : List Value} (hv : v.items? = some vs)
    (r : Ready P g rules root shared (fuel + 1) ⟨cells, named, (v, cell) :: stack⟩ S
      ((s, v) :: items)) :
    Step P g rules root shared fuel cells stack cell S (s, v)
      (openArray ⟨cells, named, stack⟩ cell vs) S (s.parts vs) .array := by
  have hmaps : v.AllMaps P := r.maps _ List.mem_cons_self
  obtain rfl := Value.parts_of_items? hv
  refine ⟨?_, ?_, r.named, ?_, fun _ hp hr => .sequence hv hp hr⟩ <;> rw [s.map_snd_parts]
  · exact ⟨named, _, opens_openArray _ r.lt (Encoding.parts v)⟩
  · have hnode (id : NodeId) : v ≠ .node id := by
      rintro rfl
      exact absurd hv (by simp [Value.items?])
    exact r.walk.imp fun _ w => w.pass hnode (List.Perm.refl _)
  · exact fun u hu => hmaps.of_mem_parts hu

theorem Ready.step_dict (hP : ∀ keys, P keys → DisplayedApart keys) {es : List (Scalar × Value)}
    (r : Ready P g rules root shared (fuel + 1) ⟨cells, named, (.dict es, cell) :: stack⟩ S
      ((s, .dict es) :: items)) :
    Step P g rules root shared fuel cells stack cell S (s, .dict es)
      (openObject ⟨cells, named, stack⟩ cell [] (es.map fun x => (x.1.display, x.2)))
      (S ++ [(.spot (.map s.address), s.position)]) (s.parts (es.map Prod.snd))
      fun us => .object ((es.map fun x => x.1.display).zip us) := by
  have hv : (Value.dict es).AllMaps P := r.maps _ List.mem_cons_self
  have hPkeys : P (es.map Prod.fst) := by
    cases hv with
    | dict keys _ => exact keys
  have hkeys : (es.map fun x => x.1.display).Nodup := by
    have := hP _ hPkeys
    rwa [DisplayedApart, List.map_map] at this
  refine ⟨?_, ?_, ?_, ?_, fun _ hp hr => .dict hPkeys hp hr⟩
  · rw [s.map_snd_parts]
    exact ⟨named, _, opens_openObject _ r.lt [] _ (List.map_map ..) (List.map_map ..) hkeys⟩
  · rw [s.map_snd_parts, Record.nodes_append, Record.nodes_map, List.append_nil]
    exact r.walk.imp fun _ w => w.pass nofun (List.Perm.refl _)
  · rw [Record.named_append, Record.named_map, List.append_nil]
    exact r.named
  · rw [s.map_snd_parts]
    exact fun u hu => hv.of_mem_parts hu

/-- A node that has an identifier is written as a reference. -/
theorem Ready.step_again {ref : String}
    (r : Ready P g rules root shared (fuel + 1) ⟨cells, named, (.node id, cell) :: stack⟩ S
      ((s, .node id) :: items)) (hid : identifier? named id = some ref) :
    Step P g rules root shared fuel cells stack cell S (s, .node id)
      (fill ⟨cells, named, stack⟩ cell (.object [(refKey, .string ref)]))
      (S ++ [(.reference id, s.position)]) [] fun _ => .object [(refKey, .string ref)] := by
  have hnamed : named = S.named shared := r.named
  rw [hnamed] at hid
  obtain ⟨hin, hs⟩ := List.mem_filter.1 (mem_of_identifier? hid)
  refine ⟨⟨named, [], opens_fill _ r.lt _⟩, ?_, ?_, by simp, fun _ hp hr => ?_⟩
  · obtain ⟨visits, w⟩ := r.walk
    rw [Record.nodes_append, Record.nodes_reference, List.append_nil]
    exact ⟨_, w.again hin⟩
  · simpa [fill] using hnamed
  · cases hp
    exact .again hin hs hid hr

/-- A node that has no identifier is written with its selected fields. -/
theorem Ready.step_first (hg : g.IsProper) (hmaps : g.AllMaps P root) {names : List String}
    (r : Ready P g rules root shared (fuel + 1) ⟨cells, named, (.node id, cell) :: stack⟩ S
      ((s, .node id) :: items)) (hid : id ∉ S.nodes)
    (hn : rules.fieldsFor (g.node id).schema = .ok names) :
    Step P g rules root shared fuel cells stack cell S (s, .node id)
      (openObject ⟨cells, Record.named shared (S ++ [(.spot (.node id), s.position)]), stack⟩ cell
        (S.leading shared id) (names.map fun name => (name, (g.node id).get name)))
      (S ++ [(.spot (.node id), s.position)])
      (fieldSites id s.position (S.leading shared id).length (names.map (g.node id).get))
      fun us => .object (S.leading shared id ++ names.zip us) := by
  have hkeys := nodup_keys_leading (hg.node id) hn shared S id
  refine ⟨?_, ?_, rfl, ?_, fun _ hp hr => .first hid hn hp hr⟩ <;> rw [map_snd_fieldSites]
  · exact ⟨_, _, opens_openObject _ r.lt _ _ ((List.map_map ..).trans (List.map_id _))
      (List.map_map ..) hkeys⟩
  · obtain ⟨visits, w⟩ := r.walk
    rw [Record.nodes_append, Record.nodes_node]
    exact ⟨_, w.follow hg hid hn (List.Perm.refl _)⟩
  · exact allMaps_get hmaps hn

/-- Every step that succeeds is one of these. -/
theorem Ready.step (hP : ∀ keys, P keys → DisplayedApart keys) (hg : g.IsProper)
    (hmaps : g.AllMaps P root) {ids : List NodeId} (hnd : ids.Nodup)
    (hmem : ∀ m, m ∈ ids ↔ Reaches g rules root m)
    (hshared : ∀ id, ReachedTwice g rules root id → shared id = true)
    (r : Ready P g rules root shared (fuel + 1) ⟨cells, named, (v, cell) :: stack⟩ S
      ((s, v) :: items))
    (h : write g rules shared ⟨cells, named, stack⟩ v cell = .ok e₁) :
    ∃ S₁ parts build,
      Step P g rules root shared fuel cells stack cell S (s, v) e₁ S₁ parts build := by
  cases v with
  | scalar c => obtain rfl := Except.ok.inj h; exact ⟨_, _, _, r.step_scalar⟩
  | list vs => obtain rfl := Except.ok.inj h; exact ⟨_, _, _, r.step_sequence rfl⟩
  | tuple vs => obtain rfl := Except.ok.inj h; exact ⟨_, _, _, r.step_sequence rfl⟩
  | dict es => obtain rfl := Except.ok.inj h; exact ⟨_, _, _, r.step_dict hP⟩
  | foreign t => exact absurd h (by simp [write])
  | node id =>
    simp only [write] at h
    cases hid : identifier? named id with
    | some ref =>
      rw [hid] at h
      obtain rfl := Except.ok.inj h
      exact ⟨_, _, _, r.step_again hid⟩
    | none =>
      simp only [hid] at h
      have hin := r.notMem_nodes hnd hmem hshared hid
      cases hn : rules.fieldsFor (g.node id).schema with
      | error err => rw [hn] at h; exact absurd h (by simp)
      | ok names =>
        rw [hn] at h
        -- with or without an identifier, the same object is opened
        have heq : openObject ⟨cells,
            Record.named shared (S ++ [(.spot (.node id), s.position)]), stack⟩ cell
            (S.leading shared id) (names.map fun name => (name, (g.node id).get name)) = e₁ := by
          rw [Record.named_append, Record.named_node, Record.leading,
            ← show named = S.named shared from r.named]
          cases hs : shared id with
          | true => simpa [hs] using h
          | false => simpa [hs] using h
        obtain rfl := heq
        exact ⟨_, _, _, r.step_first hg hmaps hin hn⟩

theorem Ready.yields_nil (r : Ready P g rules root shared fuel ⟨cells, named, []⟩ S items) :
    Yields P g rules root shared ⟨cells, named, []⟩ ⟨cells, named, []⟩ S items [] S := by
  obtain rfl := List.map_eq_nil_iff.1 r.items
  exact ⟨.nil S, .nil, ⟨le_rfl, fun _ _ _ => rfl⟩, ⟨fuel, r.walk⟩⟩

/-- A machine that is ready writes the values on its stack, if it succeeds. -/
theorem Ready.yields (hP : ∀ keys, P keys → DisplayedApart keys) (hg : g.IsProper)
    (hmaps : g.AllMaps P root) {ids : List NodeId} (hnd : ids.Nodup)
    (hmem : ∀ m, m ∈ ids ↔ Reaches g rules root m)
    (hshared : ∀ id, ReachedTwice g rules root id → shared id = true) {e' : Emission}
    (r : Ready P g rules root shared fuel e S items) (h : run g rules shared fuel e = .ok e') :
    ∃ ws S', Yields P g rules root shared e e' S items ws S' := by
  induction fuel generalizing e S items with
  | zero =>
    obtain ⟨cells, named, stack⟩ := e
    obtain rfl := r.tracked.stack_eq_nil
    obtain rfl := Except.ok.inj h
    exact ⟨[], S, r.yields_nil⟩
  | succ fuel ih =>
    obtain ⟨cells, named, stack⟩ := e
    cases stack with
    | nil =>
      obtain rfl := Except.ok.inj h
      exact ⟨[], S, r.yields_nil⟩
    | cons top stack =>
      obtain ⟨v, cell⟩ := top
      -- the value on top of the stack is the first of those to be written
      obtain ⟨s, items, rfl⟩ : ∃ s rest, items = (s, v) :: rest := by
        cases items with
        | nil => exact absurd r.items (by simp)
        | cons item rest =>
          obtain ⟨s, v'⟩ := item
          obtain rfl : v' = v := (List.cons.inj r.items).1
          exact ⟨s, rest, rfl⟩
      obtain ⟨e₁, hwrite, h⟩ := exists_write_of_run h
      obtain ⟨S₁, parts, build, t⟩ := r.step hP hg hmaps hnd hmem hshared hwrite
      obtain ⟨ws, S', y⟩ := ih (r.next t) h
      obtain ⟨ws, y⟩ := t.yields r.tidy y
      exact ⟨ws, S', y⟩

end Steps

end Emission

/-- The site of the root. -/
def Site.root : Site := ⟨⟨none, []⟩, []⟩

/-- What `Graph.encode` gives is written of the root.  All the reached nodes are written, each
once, and the shared ones are those that are reached more than once. -/
theorem encode_written {P : List Scalar → Prop} (hP : ∀ keys, P keys → DisplayedApart keys)
    {g : Graph} {rules : Rules} {root : Value} {j : Json} (hg : g.IsProper)
    (hmaps : g.AllMaps P root) (h : g.encode rules root = .ok j) :
    ∃ shared S, (∀ id, shared id = true ↔ ReachedTwice g rules root id) ∧
      Written P g rules shared [] [(.root, root)] [j] S ∧ S.nodes.Nodup ∧
      ∀ id, id ∈ S.nodes ↔ Reaches g rules root id := by
  obtain ⟨vs, e, hvisits, hrun, hread⟩ := Graph.exists_run_of_encode h
  obtain ⟨ids, hnd, hmem, -⟩ := exists_reached_of_visits hg hvisits
  have hshared := isShared_iff hg hvisits
  have r : Emission.Ready P g rules root (isShared vs) (steps g root) (.start root) []
      [(.root, root)] := by
    refine ⟨⟨_, .start g rules root⟩, rfl, rfl, fun v hv => ?_, ?_⟩
    · obtain rfl : v = root := by simpa [Emission.start] using hv
      exact hmaps.root
    · exact ⟨by simp [Emission.start], by simp [Emission.start]⟩
  obtain ⟨ws, S, y⟩ := r.yields hP hg hmaps hnd hmem (fun id => (hshared id).2) hrun
  obtain ⟨fuel, visits, w⟩ := y.finished
  -- the root alone was on the stack, so what its cell reads as is all that is written
  obtain ⟨w₀, _, hw₀, hnil, rfl⟩ := List.forall₂_cons_left_iff.1 y.reads
  obtain rfl := List.forall₂_nil_left_iff.1 hnil
  obtain rfl : w₀ = j := hw₀.read.symm.trans hread
  exact ⟨isShared vs, S, hshared, y.written, w.nodup, w.mem_iff_of_nil⟩

/-! ### A ring -/

/-- Two nodes that refer to each other; the second one also stands in a map of the first. -/
def ring : Graph where
  nodes := #[
    ⟨.custom "Scope" none, [("name", .scalar (.text "outer")), ("next", .node 1),
      ("index", .dict [(.text "inner", .list [.node 1])])]⟩,
    ⟨.custom "Scope" none, [("back", .node 0)]⟩]

/-- What is written of the ring. -/
def ringDocument : Json :=
  .object [("$id", .string "1"), ("name", .string "outer"),
    ("next", .object [("$id", .string "2"), ("back", .object [("$ref", .string "1")])]),
    ("index", .object [("inner", .array [.object [("$ref", .string "2")]])])]

theorem encode_ring : ring.encode .everything (.node 0) = .ok ringDocument := rfl

theorem isProper_ring : ring.IsProper := by
  intro n hn
  obtain rfl | rfl : n = _ ∨ n = _ := by simpa [ring] using hn
  · exact ⟨by decide, by decide, by decide⟩
  · exact ⟨by decide, by decide, by decide⟩

theorem allMaps_ring : ring.AllMaps TextKeys (.node 0) := by
  refine ⟨.node 0, fun n hn => ?_⟩
  have hkeys : TextKeys [.text "inner"] := ⟨by decide, by simp [idKey, refKey]⟩
  obtain rfl | rfl : n = _ ∨ n = _ := by simpa [ring] using hn
  · simp only [List.forall_mem_cons, List.not_mem_nil, false_imp_iff, implies_true, and_true]
    refine ⟨.scalar _, .node _, .dict hkeys fun v hv => ?_⟩
    obtain rfl := List.mem_singleton.1 hv
    exact .list fun v hv => by obtain rfl := List.mem_singleton.1 hv; exact .node 1
  · simp only [List.forall_mem_cons, List.not_mem_nil, false_imp_iff, implies_true, and_true]
    exact .node 0

end Encoding

end DeclGraph
