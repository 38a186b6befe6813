import DeclGraph.Proofs.Encoding.Marks

/-!
# Where a graph is drawn in a document

`Record.rename` gives every node and map of a graph the position at which a record keeps it.  With
this renaming a document shows what stands in the graph: `Written.views` says so of the values that
are written, and `Written.drawn` of the fields of every node and map.
-/

namespace DeclGraph

open Encoding

/-! ### Views of lists -/

namespace View

variable {ν μ : Type}

theorem mapItems_eq (f : ν → μ) (items : List (View ν)) : mapItems f items = items.map (map f) := by
  induction items with
  | nil => rfl
  | cons v rest ih => rw [mapItems, ih, List.map_cons]

theorem nodesOfItems_eq (items : List (View ν)) : nodesOfItems items = items.flatMap nodes := by
  induction items with
  | nil => rfl
  | cons v rest ih => rw [nodesOfItems, ih, List.flatMap_cons]

@[simp] theorem map_list (f : ν → μ) (items : List (View ν)) :
    map f (.list items) = .list (items.map (map f)) := by
  rw [map, mapItems_eq]

@[simp] theorem nodes_list (items : List (View ν)) :
    nodes (.list items) = items.flatMap nodes := by
  rw [nodes, nodesOfItems_eq]

@[simp] theorem nodes_node (n : ν) : nodes (.node n) = [n] := by
  rw [nodes]

@[simp] theorem nodes_scalar (c : Scalar) : nodes (.scalar c : View ν) = [] := by
  simp [nodes]

end View

namespace Json

/-- The views of values at given positions. -/
def viewsAt (locate : String → Position) (ps : List Position) (ws : List Json) :
    List (View Position) :=
  List.zipWith (fun p w => w.view locate p) ps ws

@[simp] theorem viewsAt_cons (locate : String → Position) (p : Position) (ps : List Position)
    (w : Json) (ws : List Json) :
    viewsAt locate (p :: ps) (w :: ws) = w.view locate p :: viewsAt locate ps ws := rfl

theorem views_eq (locate : String → Position) (p : Position) (i : Nat) (us : List Json) :
    views locate p i us = viewsAt locate (positions p i us.length) us := by
  induction us generalizing i with
  | nil => rfl
  | cons w rest ih => rw [views, ih, List.length_cons, positions_succ]; rfl

theorem view_array (locate : String → Position) (p : Position) (us : List Json) :
    (Json.array us).view locate p = .list (viewsAt locate (positions p 0 us.length) us) := by
  rw [view, views_eq]

/-- A node is seen as itself. -/
theorem view_of_mark? {entries : List (String × Json)} {m : Option String}
    (h : (Json.object entries).mark? = some (.node m)) (locate : String → Json.Position)
    (p : Json.Position) : (Json.object entries).view locate p = .node p := by
  have : (Json.object entries).reference? = none := by
    cases href : (Json.object entries).reference? with
    | none => rfl
    | some r => rw [Json.mark?, href] at h; exact absurd h (by simp)
  rw [Json.view, this]; rfl

/-- The fields of an object whose leading entries are at most its identifier. -/
theorem fieldsOf_leading (locate : String → Position) (p : Position) {lead : List (String × Json)}
    (hlead : ∀ x ∈ lead, x.1 = idKey) {keys : List String} (us : List Json)
    (hid : idKey ∉ keys) :
    fieldsOf locate p (lead ++ keys.zip us)
      = keys.zip (viewsAt locate (positions p lead.length us.length) us) := by
  have hnone : (lead.zipIdx.filter fun x => x.1.1 ≠ idKey) = [] := by
    refine List.filter_eq_nil_iff.2 fun x hx => ?_
    have := hlead x.1 (List.fst_mem_of_mem_zipIdx hx)
    simpa using this
  have hall : ((keys.zip us).zipIdx lead.length).filter (fun x => x.1.1 ≠ idKey)
      = (keys.zip us).zipIdx lead.length := by
    refine List.filter_eq_self.2 fun x hx => ?_
    have hmem := (List.of_mem_zip (List.fst_mem_of_mem_zipIdx hx)).1
    have : x.1.1 ≠ idKey := fun h => hid (h ▸ hmem)
    simpa using this
  rw [fieldsOf, List.zipIdx_append, List.filter_append, hnone, List.nil_append]
  simp only [Nat.zero_add]
  rw [hall]
  -- the number of leading entries only shifts the positions, so it may be any number
  clear hall hid hnone hlead
  generalize lead.length = k
  induction keys generalizing us k with
  | nil => rfl
  | cons key keys ih =>
    cases us with
    | nil => rfl
    | cons u us =>
      rw [List.zip_cons_cons, List.zipIdx_cons, List.map_cons, ih, List.length_cons,
        positions_succ]
      rfl

end Json

namespace Value

theorem views_eq (s : Site) (vs : List Value) :
    views s.address 0 vs = (s.parts vs).map fun x => x.2.view x.1.address := by
  rw [Site.parts, List.map_map]
  suffices ∀ i, views s.address i vs
      = (vs.zipIdx i).map fun x => x.1.view (s.address.part x.2) from this 0
  induction vs with
  | nil => intro i; rfl
  | cons v rest ih => intro i; rw [views, ih, List.zipIdx_cons, List.map_cons]

theorem view_of_items? {v : Value} {vs : List Value} (h : v.items? = some vs) (s : Site) :
    v.view s.address = .list ((s.parts vs).map fun x => x.2.view x.1.address) := by
  rcases eq_of_items? h with rfl | rfl <;> rw [view, views_eq]

/-- One number more leads to a part of what stands there. -/
theorem at?_append (v : Value) (path : List Nat) (i : Nat) :
    v.at? (path ++ [i]) = (v.at? path).bind fun w => (parts w)[i]? := by
  induction path generalizing v with
  | nil =>
    show ((parts v)[i]?.bind fun w => w.at? []) = (parts v)[i]?
    cases (parts v)[i]? <;> rfl
  | cons k path ih =>
    show ((parts v)[k]?.bind fun w => w.at? (path ++ [i])) = _
    rw [at?]
    cases (parts v)[k]? with
    | none => rfl
    | some w => exact ih w

end Value

namespace Graph

variable {g : Graph} {rules : Rules} {root : Value}

theorem valueAt_part {a : Address} {v : Value} (h : g.valueAt rules root a = some v) (i : Nat) :
    g.valueAt rules root (a.part i) = (parts v)[i]? := by
  obtain ⟨start, path⟩ := a
  cases start with
  | none =>
    have h' : root.at? path = some v := h
    show root.at? (path ++ [i]) = _
    rw [Value.at?_append, h']; rfl
  | some field =>
    obtain ⟨id, k⟩ := field
    obtain ⟨w, hw, hpath⟩ := Option.bind_eq_some_iff.1 h
    show ((selectedValues g rules id)[k]?.bind fun w => w.at? (path ++ [i])) = _
    rw [hw]
    show w.at? (path ++ [i]) = _
    rw [Value.at?_append, hpath]; rfl

theorem zip_map_zipIdx {α β γ κ : Type} (k : α → κ) (v : α → β) (f : β × Nat → γ) (l : List α) :
    (l.map k).zip ((l.map v).zipIdx.map f) = l.zipIdx.map fun x => (k x.1, f (v x.1, x.2)) := by
  have hk : l.map k = l.zipIdx.map (k ∘ Prod.fst) := by
    rw [← List.map_map, List.zipIdx_map_fst]
  rw [hk, List.zipIdx_map, List.map_map, List.zip_map']
  rfl

/-- The fields of a node are its selected fields, each seen at its address. -/
theorem fieldsAt_node {id : NodeId} {names : List String}
    (h : rules.fieldsFor (g.node id).schema = .ok names) (p : Json.Position) (lead : Nat) :
    g.fieldsAt rules root (.node id) = names.zip
      ((fieldSites id p lead (names.map (g.node id).get)).map fun x => x.2.view x.1.address) := by
  have := zip_map_zipIdx (fun name : String => name) (g.node id).get
    (fun x => x.1.view ⟨some (id, x.2), []⟩) names
  rw [List.map_id'] at this
  rw [fieldsAt, h, fieldSites, List.map_map]
  exact this.symm

/-- The fields of a map are its entries, each seen at its address. -/
theorem fieldsAt_map {s : Site} {es : List (Scalar × Value)}
    (h : g.valueAt rules root s.address = some (.dict es)) :
    g.fieldsAt rules root (.map s.address) = (es.map fun e => e.1.display).zip
      ((s.parts (es.map Prod.snd)).map fun x => x.2.view x.1.address) := by
  have := zip_map_zipIdx (fun e : Scalar × Value => e.1.display) Prod.snd
    (fun x : Value × Nat => x.1.view (s.address.part x.2)) es
  rw [fieldsAt, h, Site.parts, List.map_map]
  exact this.symm

end Graph

namespace Encoding

/-! ### Where spots stand -/

namespace Record

variable {shared : NodeId → Bool} {F : Record}

/-- The position of a node. -/
def place (F : Record) (id : NodeId) : Json.Position :=
  (Entries.get? (.spot (.node id)) F).getD []

/-- The position of what stands at an address. -/
def positionOf (shared : NodeId → Bool) (F : Record) (a : Address) : Json.Position :=
  match a.start with
  | none => a.path
  | some (id, i) => F.place id ++ ((if shared id then 1 else 0) + i) :: a.path

/-- The position of a node or a map. -/
def rename (shared : NodeId → Bool) (F : Record) : Spot → Json.Position
  | .node id => F.place id
  | .map a => F.positionOf shared a

theorem positionOf_part (a : Address) (i : Nat) :
    F.positionOf shared (a.part i) = F.positionOf shared a ++ [i] := by
  obtain ⟨start, path⟩ := a
  cases start with
  | none => rfl
  | some field =>
    obtain ⟨id, k⟩ := field
    show F.place id ++ _ :: (path ++ [i]) = (F.place id ++ _ :: path) ++ [i]
    rw [List.append_assoc, List.cons_append]

/-- A node that is kept once is kept at its position. -/
theorem place_of_mem {id : NodeId} {p : Json.Position} (hnd : F.nodes.Nodup)
    (h : (Entry.spot (.node id), p) ∈ F) : F.place id = p := by
  induction F with
  | nil => simp at h
  | cons x F ih =>
    obtain ⟨e, q⟩ := x
    rw [place, Entries.get?]
    by_cases he : e = .spot (.node id)
    · subst he
      rw [if_pos rfl]
      rcases List.mem_cons.1 h with heq | hmem
      · exact (Prod.mk.inj heq).2.symm
      · exact absurd (mem_nodes.2 ⟨p, hmem⟩) (List.nodup_cons.1 hnd).1
    · rw [if_neg he]
      rcases List.mem_cons.1 h with heq | hmem
      · exact absurd (Prod.mk.inj heq).1.symm he
      · exact ih (hnd.sublist ((List.sublist_cons_self _ F).filterMap _)) hmem

/-- What holds of all the nodes and maps that are kept holds when one more is kept. -/
theorem forall_spot_concat {S : Record} {Q : Spot → Json.Position → Prop} {y : Spot}
    {q : Json.Position} (hS : ∀ x p, (Entry.spot x, p) ∈ S → Q x p) (hy : Q y q) :
    ∀ x p, (Entry.spot x, p) ∈ S ++ [(.spot y, q)] → Q x p := by
  intro x p hx
  rcases List.mem_append.1 hx with hx | hx
  · exact hS x p hx
  · obtain ⟨rfl, rfl⟩ : x = y ∧ p = q := by simpa using hx
    exact hy

end Record

/-- A record that keeps every node once, and a way to find the nodes with identifiers. -/
structure Layout (shared : NodeId → Bool) (F : Record) (locate : String → Json.Position) :
    Prop where
  /-- Every node is kept once. -/
  nodup : F.nodes.Nodup
  /-- An identifier leads to its node. -/
  locate : ∀ id r, Emission.identifier? (F.named shared) id = some r → locate r = F.place id

/-- A value that is to be written stands at its address, and at its position what is written of it;
what it shows can be reached. -/
structure Sound (g : Graph) (rules : Rules) (root : Value) (shared : NodeId → Bool) (F : Record)
    (x : Site × Value) : Prop where
  /-- The value stands at the address. -/
  value : g.valueAt rules root x.1.address = some x.2
  /-- The address is drawn at the position. -/
  position : F.positionOf shared x.1.address = x.1.position
  /-- The nodes and maps that the value shows can be reached. -/
  reaches : ∀ n ∈ (x.2.view x.1.address).nodes, (g.rooted rules root).Reaches n

variable {g : Graph} {rules : Rules} {root : Value} {shared : NodeId → Bool} {F : Record}
  {locate : String → Json.Position}

theorem Site.mem_parts {s : Site} {vs : List Value} {x : Site × Value} :
    x ∈ s.parts vs ↔
      ∃ i : Nat, vs[i]? = some x.2 ∧ x.1 = ⟨s.address.part i, s.position ++ [i]⟩ := by
  constructor
  · intro h
    obtain ⟨⟨v, i⟩, hmem, rfl⟩ := List.mem_map.1 h
    exact ⟨i, List.mem_zipIdx_iff_getElem?.1 hmem, rfl⟩
  · rintro ⟨i, hi, hs⟩
    refine List.mem_map.2 ⟨(x.2, i), List.mem_zipIdx_iff_getElem?.2 hi, ?_⟩
    exact Prod.ext hs.symm rfl

theorem Site.positionOf_parts (s : Site) {vs : List Value}
    (h : F.positionOf shared s.address = s.position) :
    ∀ x ∈ s.parts vs, F.positionOf shared x.1.address = x.1.position := by
  intro x hx
  obtain ⟨i, -, hs⟩ := Site.mem_parts.1 hx
  rw [hs, Record.positionOf_part, h]

/-- The parts of what is sound are sound, if what they show can be reached. -/
theorem Sound.of_reaches {s : Site} {v : Value} (h : Sound g rules root shared F (s, v))
    (hreach : ∀ x ∈ s.parts (parts v), ∀ n ∈ (x.2.view x.1.address).nodes,
      (g.rooted rules root).Reaches n) :
    ∀ x ∈ s.parts (parts v), Sound g rules root shared F x := by
  intro x hx
  obtain ⟨i, hi, hs⟩ := Site.mem_parts.1 hx
  exact ⟨by rw [hs, Graph.valueAt_part h.value, hi], s.positionOf_parts h.position x hx,
    hreach x hx⟩

/-- The fields of a node that is kept are sound, if the node can be reached. -/
theorem Sound.fields {id : NodeId} {p : Json.Position} {names : List String} {lead : Nat}
    (hlead : lead = if shared id then 1 else 0)
    (hn : rules.fieldsFor (g.node id).schema = .ok names) (hplace : F.place id = p)
    (hreach : (g.rooted rules root).Reaches (.node id)) :
    ∀ x ∈ fieldSites id p lead (names.map (g.node id).get),
      Sound g rules root shared F x := by
  intro x hx
  refine ⟨?_, ?_, fun n hnodes => ?_⟩
  · obtain ⟨⟨v, i⟩, hmem, rfl⟩ := List.mem_map.1 hx
    show (selectedValues g rules id)[i]?.bind _ = some v
    rw [selectedValues_eq hn, List.mem_zipIdx_iff_getElem?.1 hmem]; rfl
  · obtain ⟨⟨v, i⟩, -, rfl⟩ := List.mem_map.1 hx
    show F.place id ++ [(if shared id then 1 else 0) + i] = p ++ [lead + i]
    rw [hplace, hlead]
  · -- the view stands among the fields of the node, with some name
    have hmem : x.2.view x.1.address
        ∈ ((g.fieldsAt rules root (.node id)).map Prod.snd) := by
      rw [Graph.fieldsAt_node hn p lead, List.map_snd_zip (by simp)]
      exact List.mem_map.2 ⟨x, hx, rfl⟩
    obtain ⟨y, hy, heq⟩ := List.mem_map.1 hmem
    exact .field hreach hy (heq ▸ hnodes)

/-- The items of a sound list are sound. -/
theorem Sound.items {s : Site} {v : Value} {vs : List Value}
    (h : Sound g rules root shared F (s, v)) (hv : v.items? = some vs) :
    ∀ x ∈ s.parts vs, Sound g rules root shared F x := by
  obtain rfl := Value.parts_of_items? hv
  refine h.of_reaches fun x hx n hn => h.reaches n ?_
  rw [Value.view_of_items? hv, View.nodes_list, List.flatMap_map]
  exact List.mem_flatMap.2 ⟨x, hx, hn⟩

/-- The entries of a sound map are sound. -/
theorem Sound.entries {s : Site} {es : List (Scalar × Value)}
    (h : Sound g rules root shared F (s, .dict es)) :
    ∀ x ∈ s.parts (es.map Prod.snd), Sound g rules root shared F x := by
  refine h.of_reaches fun x hx n hn => ?_
  have hreach : (g.rooted rules root).Reaches (.map s.address) := h.reaches _ (by simp [Value.view])
  have hmem : x.2.view x.1.address
      ∈ ((g.fieldsAt rules root (.map s.address)).map Prod.snd) := by
    rw [Graph.fieldsAt_map h.value, List.map_snd_zip (by simp)]
    exact List.mem_map.2 ⟨x, hx, rfl⟩
  obtain ⟨y, hy, heq⟩ := List.mem_map.1 hmem
  exact .field hreach hy (heq ▸ hn)

namespace Written

variable {P : List Scalar → Prop} {S S' : Record} {items : List (Site × Value)} {ws : List Json}

/-- What is written shows what stands in the graph, with the nodes and maps renamed to their
positions. -/
theorem views (hg : g.IsProper) (h : Written TextKeys g rules shared S items ws S')
    (hF : S' <+: F) (hl : Layout shared F locate)
    (hpos : ∀ x ∈ items, F.positionOf shared x.1.address = x.1.position) :
    Json.viewsAt locate (items.map fun x => x.1.position) ws
      = items.map fun x => (x.2.view x.1.address).map (F.rename shared) := by
  induction h using sequence_induction with
  | nil => rfl
  | @scalar S S' s c _ _ _ ih =>
    have hrest := ih hF fun x hx => hpos x (List.mem_cons_of_mem _ hx)
    rw [List.map_cons, Json.viewsAt_cons, hrest, List.map_cons]
    cases c <;> rfl
  | @sequence S M S' s _ vs _ us _ hv hp hr ihp ih =>
    have hrest := ih hF fun x hx => hpos x (List.mem_cons_of_mem _ hx)
    have hparts := ihp (hr.grows.trans hF) (s.positionOf_parts (hpos _ List.mem_cons_self))
    rw [s.map_position_parts, ← s.length_parts vs, ← hp.length_eq] at hparts
    rw [List.map_cons, Json.viewsAt_cons, hrest, List.map_cons, Json.view_array, hparts,
      Value.view_of_items? hv, View.map_list, List.map_map]
    rfl
  | @dict S M S' s es _ us _ keys hp hr ihp ih =>
    have hrest := ih hF fun x hx => hpos x (List.mem_cons_of_mem _ hx)
    have hs : F.positionOf shared s.address = s.position := hpos _ List.mem_cons_self
    rw [List.map_cons, Json.viewsAt_cons, hrest, List.map_cons,
      Json.view_of_mark? (keys.mark?_entries us)]
    show _ = View.node (F.positionOf shared s.address) :: _
    rw [hs]
  | @again S S' s id r _ _ _ _ hr hw ih =>
    have hrest := ih hF fun x hx => hpos x (List.mem_cons_of_mem _ hx)
    -- identifiers that were given when the reference was written are still given in the end
    have hr' : Emission.identifier? (F.named shared) id = some r := by
      obtain ⟨R, rfl⟩ := ((List.prefix_append _ _).trans hw.grows).trans hF
      exact Record.identifier?_of_append hr R
    rw [List.map_cons, Json.viewsAt_cons, hrest, List.map_cons]
    show View.node (locate r) :: _ = View.node (F.place id) :: _
    rw [hl.locate id r hr']
  | @first S M S' s id names _ us _ hid hn hp hr ihp ih =>
    have hrest := ih hF fun x hx => hpos x (List.mem_cons_of_mem _ hx)
    -- a node is kept once, so its place is where it is written
    have hmem : (Entry.spot (.node id), s.position) ∈ F :=
      ((hp.grows.trans hr.grows).trans hF).subset (by simp)
    rw [List.map_cons, Json.viewsAt_cons, hrest, List.map_cons,
      Json.view_of_mark? ((hg.node id).mark?_selected hn shared S id us)]
    show _ = View.node (F.place id) :: _
    rw [Record.place_of_mem hl.nodup hmem]

/-- The nodes and maps that are shown have been written in the end. -/
theorem nodes_written (h : Written P g rules shared S items ws S') :
    ∀ x ∈ items, ∀ n ∈ (x.2.view x.1.address).nodes, ∃ p, (Entry.spot n, p) ∈ S' := by
  induction h using sequence_induction with
  | nil => simp
  | scalar _ ih => exact List.forall_mem_cons.2 ⟨by simp [Value.view], ih⟩
  | sequence hv _ hr ihp ih =>
    refine List.forall_mem_cons.2 ⟨fun n hn => ?_, ih⟩
    rw [Value.view_of_items? hv, View.nodes_list, List.flatMap_map] at hn
    obtain ⟨x, hx, hn⟩ := List.mem_flatMap.1 hn
    obtain ⟨p, hp⟩ := ihp x hx n hn
    exact ⟨p, hr.grows.subset hp⟩
  | @dict S M S' s es _ _ _ _ hp hr _ ih =>
    refine List.forall_mem_cons.2 ⟨fun n hn => ?_, ih⟩
    obtain rfl : n = .map s.address := by simpa [Value.view] using hn
    exact ⟨s.position, (hp.grows.trans hr.grows).subset (by simp)⟩
  | @again S S' s id _ _ _ hid _ _ hw ih =>
    refine List.forall_mem_cons.2 ⟨fun n hn => ?_, ih⟩
    obtain rfl : n = .node id := by simpa [Value.view] using hn
    obtain ⟨p, hp⟩ := Record.mem_nodes.1 hid
    exact ⟨p, ((List.prefix_append _ _).trans hw.grows).subset hp⟩
  | @first S M S' s id _ _ _ _ _ _ hp hr _ ih =>
    refine List.forall_mem_cons.2 ⟨fun n hn => ?_, ih⟩
    obtain rfl : n = .node id := by simpa [Value.view] using hn
    exact ⟨s.position, (hp.grows.trans hr.grows).subset (by simp)⟩

end Written

/-! ### Fields of spots -/

/-- A node or a map that is kept at a position stands there among the parts `J` of a document, and
its fields are those it has in the graph. -/
structure Drawn (g : Graph) (rules : Rules) (root : Value) (shared : NodeId → Bool) (F : Record)
    (locate : String → Json.Position) (J : List (Json.Position × Json)) (x : Spot)
    (p : Json.Position) : Prop where
  /-- It is kept once. -/
  position : F.rename shared x = p
  /-- It can be reached. -/
  reaches : (g.rooted rules root).Reaches x
  /-- It is an object with the same fields. -/
  object : ∃ entries, (p, Json.object entries) ∈ J ∧ Json.fieldsOf locate p entries
    = (g.fieldsAt rules root x).map fun y => (y.1, y.2.map (F.rename shared))
  /-- What its fields show is kept. -/
  closed : ∀ y ∈ g.fieldsAt rules root x, ∀ n ∈ y.2.nodes, ∃ q, (Entry.spot n, q) ∈ F

variable {J : List (Json.Position × Json)}

/-- A spot is drawn when what is written of its fields is written behind it. -/
theorem Drawn.of_written (hg : g.IsProper) (hl : Layout shared F locate) {x : Spot}
    {p : Json.Position} {lead : List (String × Json)} {keys : List String}
    {sites : List (Site × Value)} {us : List Json} {S M : Record}
    (hw : Written TextKeys g rules shared S sites us M) (hF : M <+: F)
    (hpos : F.rename shared x = p) (hreach : (g.rooted rules root).Reaches x)
    (hlead : ∀ e ∈ lead, e.1 = idKey) (hid : idKey ∉ keys)
    (hmem : (p, Json.object (lead ++ keys.zip us)) ∈ J)
    (hfields : g.fieldsAt rules root x = keys.zip (sites.map fun y => y.2.view y.1.address))
    (hsites : sites.map (fun y => y.1.position) = Json.positions p lead.length us.length)
    (hsound : ∀ y ∈ sites, Sound g rules root shared F y) :
    Drawn g rules root shared F locate J x p := by
  refine ⟨hpos, hreach, ⟨_, hmem, ?_⟩, fun y hy n hn => ?_⟩
  · have hviews := hw.views hg hF hl fun y hy => (hsound y hy).position
    -- the leading entries are no fields, and the others are seen at their sites
    have hmap : (sites.map fun y => (y.2.view y.1.address).map (F.rename shared))
        = (sites.map fun y => y.2.view y.1.address).map (View.map (F.rename shared)) := by
      rw [List.map_map]; rfl
    rw [Json.fieldsOf_leading _ _ hlead _ hid, ← hsites, hviews, hmap, List.zip_map_right, hfields]
    rfl
  · rw [hfields] at hy
    obtain ⟨z, hz, heq⟩ := List.mem_map.1 (List.of_mem_zip hy).2
    obtain ⟨q, hq⟩ := hw.nodes_written z hz n (by rw [heq]; exact hn)
    exact ⟨q, hF.subset hq⟩

namespace Written

variable {S S' : Record} {items : List (Site × Value)} {ws : List Json}

/-- All the nodes and maps that are written are drawn. -/
theorem drawn (hg : g.IsProper) (h : Written TextKeys g rules shared S items ws S')
    (hF : S' <+: F) (hl : Layout shared F locate)
    (hsound : ∀ x ∈ items, Sound g rules root shared F x)
    (hJ : ∀ y ∈ Json.partsAt (items.map fun x => x.1.position) ws, y ∈ J)
    (hS : ∀ x p, (Entry.spot x, p) ∈ S → Drawn g rules root shared F locate J x p) :
    ∀ x p, (Entry.spot x, p) ∈ S' → Drawn g rules root shared F locate J x p := by
  induction h using sequence_induction with
  | nil => exact hS
  | scalar _ ih =>
    rw [List.map_cons, Json.partsAt_cons] at hJ
    exact ih hF (List.forall_mem_cons.1 hsound).2 (List.forall_mem_append.1 hJ).2 hS
  | @sequence S M S' s _ vs _ us _ hv hp hr ihp ih =>
    obtain ⟨hs, hsound⟩ := List.forall_mem_cons.1 hsound
    have hlen : us.length = vs.length := by rw [hp.length_eq, s.length_parts]
    rw [List.map_cons, Json.partsAt_cons, Json.parts_array, hlen, ← s.map_position_parts] at hJ
    obtain ⟨hJ, hJrest⟩ := List.forall_mem_append.1 hJ
    have hM := ihp (hr.grows.trans hF) (hs.items hv) (List.forall_mem_cons.1 hJ).2 hS
    exact ih hF hsound hJrest hM
  | @dict S M S' s es _ us _ keys hp hr ihp ih =>
    obtain ⟨hs, hsound⟩ := List.forall_mem_cons.1 hsound
    have hlen : us.length = es.length := by rw [hp.length_eq, s.length_parts, List.length_map]
    rw [List.map_cons, Json.partsAt_cons, Json.parts_object _ (by simpa using hlen)] at hJ
    obtain ⟨hJ, hJrest⟩ := List.forall_mem_append.1 hJ
    obtain ⟨hobject, hJ⟩ := List.forall_mem_cons.1 hJ
    have hsites : (s.parts (es.map Prod.snd)).map (fun y => y.1.position)
        = Json.positions s.position 0 us.length := by
      rw [s.map_position_parts, List.length_map, hlen]
    have hid : idKey ∉ es.map fun e => e.1.display := by
      have := keys.idKey_notMem
      rwa [List.map_map] at this
    -- the map stands in front of its entries: it is drawn with what is written of them
    have hmap : Drawn g rules root shared F locate J (.map s.address) s.position :=
      .of_written hg hl hp (hr.grows.trans hF) hs.position (hs.reaches _ (by simp [Value.view]))
        (List.forall_mem_nil _) hid hobject (Graph.fieldsAt_map hs.value) hsites hs.entries
    have hM := ihp (hr.grows.trans hF) hs.entries (by rw [hsites]; exact hJ)
      (Record.forall_spot_concat hS hmap)
    exact ih hF hsound hJrest hM
  | again _ _ _ _ ih =>
    rw [List.map_cons, Json.partsAt_cons] at hJ
    exact ih hF (List.forall_mem_cons.1 hsound).2 (List.forall_mem_append.1 hJ).2
      fun x p hx => hS x p (by simpa using hx)
  | @first S M S' s id names _ us _ hid hn hp hr ihp ih =>
    obtain ⟨hs, hsound⟩ := List.forall_mem_cons.1 hsound
    have hlen : us.length = names.length := by rw [hp.length_eq, length_fieldSites, List.length_map]
    rw [List.map_cons, Json.partsAt_cons, Json.parts_object_append _ _ hlen] at hJ
    obtain ⟨hJ, hJrest⟩ := List.forall_mem_append.1 hJ
    obtain ⟨hobject, hJ⟩ := List.forall_mem_cons.1 hJ
    -- the identifier, if there is one, stands in front of the fields
    have hJ := (List.forall_mem_append.1 hJ).2
    have hsites : (fieldSites id s.position (S.leading shared id).length
          (names.map (g.node id).get)).map (fun y => y.1.position)
        = Json.positions s.position (S.leading shared id).length us.length := by
      rw [map_position_fieldSites, List.length_map, hlen]
    -- the node is kept here and nowhere else, because records keep every node once
    have hplace : F.place id = s.position := Record.place_of_mem hl.nodup
      (((hp.grows.trans hr.grows).trans hF).subset (by simp))
    have hreach : (g.rooted rules root).Reaches (.node id) := hs.reaches _ (by simp [Value.view])
    have hfields := Sound.fields (Record.length_leading shared S id) hn hplace hreach
    have hnode : Drawn g rules root shared F locate J (.node id) s.position :=
      .of_written hg hl hp (hr.grows.trans hF) hplace hreach (Record.keys_leading shared S id)
        ((hg.node id).idKey_notMem_of_fieldsFor hn) hobject (Graph.fieldsAt_node hn _ _) hsites
        hfields
    have hM := ihp (hr.grows.trans hF) hfields (by rw [hsites]; exact hJ)
      (Record.forall_spot_concat hS hnode)
    exact ih hF hsound hJrest hM

end Written

end Encoding

end DeclGraph
