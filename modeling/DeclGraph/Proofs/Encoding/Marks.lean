import DeclGraph.Proofs.Encoding.Parts

/-!
# What a document shows of its record

A document shows which of its objects are nodes, which are references, and which identifiers they
have: its `Json.marks`.  `Written.marks` says that these are, in the order of the text, what the
record of writing keeps; so what is known of records is known of documents.  `Written.backward`
says that a reference names a node that was written before, and `Written.count_references` how
often a node is referred to.
-/

namespace DeclGraph

open Encoding

/-! ### Marks -/

namespace Json

/-- What an object of a document is. -/
inductive Mark
  /-- A node, with its identifier if it has one. -/
  | node (identifier? : Option String)
  /-- A reference to the node with an identifier. -/
  | reference (identifier : String)
deriving DecidableEq, Repr

/-- What a value is, if it is a node or a reference. -/
def mark? (w : Json) : Option Mark :=
  match w.reference? with
  | some r => some (.reference r)
  | none => if w.isNode then some (.node w.identifier?) else none

/-- The nodes and references of a list of values, with their positions. -/
def marks (D : List (Position × Json)) : List (Mark × Position) :=
  D.filterMap fun x => x.2.mark?.map fun m => (m, x.1)

@[simp] theorem marks_append (D E : List (Position × Json)) :
    marks (D ++ E) = marks D ++ marks E :=
  List.filterMap_append

theorem marks_cons_none {p : Position} {w : Json} (h : w.mark? = none)
    (D : List (Position × Json)) : marks ((p, w) :: D) = marks D := by
  simp [marks, h]

theorem marks_cons_some {p : Position} {w : Json} {m : Mark} (h : w.mark? = some m)
    (D : List (Position × Json)) : marks ((p, w) :: D) = (m, p) :: marks D := by
  simp [marks, h]

theorem mem_marks {D : List (Position × Json)} {m : Mark} {p : Position} :
    (m, p) ∈ marks D ↔ ∃ w, (p, w) ∈ D ∧ w.mark? = some m := by
  constructor
  · intro h
    obtain ⟨⟨q, w⟩, hmem, hw⟩ := List.mem_filterMap.1 h
    obtain ⟨m', hm', heq⟩ := Option.map_eq_some_iff.1 hw
    obtain ⟨rfl, rfl⟩ := Prod.mk.inj heq
    exact ⟨w, hmem, hm'⟩
  · rintro ⟨w, hmem, hw⟩
    exact List.mem_filterMap.2 ⟨(p, w), hmem, by rw [hw]; rfl⟩

/-- The positions of nodes and references go up. -/
theorem sublist_map_snd_marks (D : List (Position × Json)) :
    ((marks D).map Prod.snd).Sublist (D.map Prod.fst) := by
  induction D with
  | nil => exact List.Sublist.slnil
  | cons x D ih =>
    obtain ⟨p, w⟩ := x
    cases h : w.mark? with
    | none => rw [marks_cons_none h]; exact ih.cons _
    | some m => rw [marks_cons_some h]; exact ih.cons_cons _

theorem mark?_scalarJson (c : Scalar) : (Emission.scalarJson c).mark? = none := by
  cases c <;> rfl

theorem parts_scalarJson (p : Position) (c : Scalar) :
    (Emission.scalarJson c).parts p = [(p, Emission.scalarJson c)] := by
  rw [parts_eq]
  cases c <;> rfl

theorem parts_reference (p : Position) (r : String) :
    (object [(refKey, .string r)]).parts p
      = [(p, object [(refKey, .string r)]), (p ++ [0], .string r)] := by
  rw [parts_eq]
  show _ :: partsAt [p ++ [0]] [.string r] = _
  rw [partsAt_cons, partsAt_nil, parts_eq]
  rfl

/-- The parts of an object, those of its leading entries apart from the others. -/
theorem parts_object_append (p : Position) (lead : List (String × Json)) {keys : List String}
    {us : List Json} (h : us.length = keys.length) :
    (object (lead ++ keys.zip us)).parts p = (p, object (lead ++ keys.zip us)) ::
      (partsAt (positions p 0 lead.length) (lead.map Prod.snd)
        ++ partsAt (positions p lead.length us.length) us) := by
  have hchildren : (object (lead ++ keys.zip us)).children = lead.map Prod.snd ++ us := by
    rw [children, List.map_append, List.map_snd_zip h.le]
  rw [parts_eq, hchildren, List.length_append, List.length_map, positions_add, Nat.zero_add,
    partsAt_append (by simp)]

theorem parts_object (p : Position) {keys : List String} {us : List Json}
    (h : us.length = keys.length) :
    (object (keys.zip us)).parts p
      = (p, object (keys.zip us)) :: partsAt (positions p 0 us.length) us := by
  exact parts_object_append p [] h

theorem get?_zip_eq_none {k : String} {keys : List String} (us : List Json) (h : k ∉ keys) :
    Entries.get? k (keys.zip us) = none := by
  refine Entries.get?_eq_none_iff.2 fun hk => h ?_
  obtain ⟨⟨k', u⟩, hmem, rfl⟩ := List.mem_map.1 hk
  exact (List.of_mem_zip hmem).1

theorem mark?_object {keys : List String} (us : List Json) (hid : idKey ∉ keys)
    (href : refKey ∉ keys) : (object (keys.zip us)).mark? = some (.node none) := by
  simp [mark?, reference?, isNode, identifier?, get?_zip_eq_none us hid,
    get?_zip_eq_none us href]

end Json

namespace Encoding

/-! ### The marks of a record -/

theorem TextKeys.mark?_entries {es : List (Scalar × Value)} (keys : TextKeys (es.map Prod.fst))
    (us : List Json) :
    (Json.object ((es.map fun e => e.1.display).zip us)).mark? = some (.node none) := by
  have := Json.mark?_object us keys.idKey_notMem keys.refKey_notMem
  rwa [List.map_map] at this

theorem Site.map_position_parts (s : Site) (vs : List Value) :
    (s.parts vs).map (fun x => x.1.position) = Json.positions s.position 0 vs.length := by
  rw [Json.positions, ← List.zipIdx_map_snd 0 vs, List.map_map, Site.parts, List.map_map]; rfl

theorem map_position_fieldSites (id : NodeId) (p : Json.Position) (lead : Nat)
    (vs : List Value) :
    (fieldSites id p lead vs).map (fun x => x.1.position) = Json.positions p lead vs.length := by
  have hshift : List.range' lead vs.length = (List.range' 0 vs.length).map (lead + ·) := by
    rw [List.map_add_range', Nat.add_zero]
  rw [Json.positions, hshift, ← List.zipIdx_map_snd 0 vs, List.map_map, List.map_map, fieldSites,
    List.map_map]
  rfl

namespace Record

variable {shared : NodeId → Bool}

/-- How an entry shows in a document whose record is `F`. -/
def mark (shared : NodeId → Bool) (F : Record) : Entry → Json.Mark
  | .spot (.node id) => .node (Emission.identifier? (F.named shared) id)
  | .spot (.map _) => .node none
  | .reference id => .reference ((Emission.identifier? (F.named shared) id).getD "")

theorem identifier?_of_append {S : Record} {id : NodeId} {r : String}
    (h : Emission.identifier? (S.named shared) id = some r) (R : Record) :
    Emission.identifier? ((S ++ R).named shared) id = some r := by
  obtain ⟨k, hk, rfl⟩ := Option.map_eq_some_iff.1 h
  rw [Emission.identifier?, named_append, idxOf?_append, hk]; rfl

/-- A node that is written for the first time gets the next identifier, if it is shared. -/
theorem identifier?_of_first {S : Record} {id : NodeId} (h : id ∉ S.nodes) (p : Json.Position)
    (R : Record) :
    Emission.identifier? (named shared (S ++ [(.spot (.node id), p)] ++ R)) id
      = if shared id then some (Emission.identifier (S.named shared).length) else none := by
  have hnot : (S.named shared).idxOf? id = none :=
    List.idxOf?_eq_none_iff.2 fun hmem => h (List.mem_filter.1 hmem).1
  split
  · next hs =>
    refine identifier?_of_append ?_ R
    rw [Emission.identifier?, named_append, idxOf?_append, hnot, named_node, if_pos hs]
    simp [List.idxOf?_cons]
  · next hs =>
    refine Option.map_eq_none_iff.2 (List.idxOf?_eq_none_iff.2 fun hmem => hs ?_)
    exact (List.mem_filter.1 hmem).2

/-- In front of the fields there is no node and no reference. -/
theorem marks_leading (S : Record) (id : NodeId) (p : Json.Position) :
    Json.marks (Json.partsAt (Json.positions p 0 (S.leading shared id).length)
      ((S.leading shared id).map Prod.snd)) = [] := by
  unfold leading
  split
  · show Json.marks ((Json.string _).parts (p ++ [0]) ++ []) = []
    rw [Json.parts_eq]; rfl
  · rfl

end Record

end Encoding

/-- A written node shows its identifier. -/
theorem Node.IsProper.mark?_selected {rules : Rules} {n : Node} (hnode : n.IsProper)
    {names : List String} (hn : rules.fieldsFor n.schema = .ok names) (shared : NodeId → Bool)
    (S : Record) (id : NodeId) (us : List Json) :
    (Json.object (S.leading shared id ++ names.zip us)).mark?
      = some (.node (if shared id then some (Emission.identifier (S.named shared).length)
        else none)) := by
  have hid := hnode.idKey_notMem_of_fieldsFor hn
  have href := hnode.refKey_notMem_of_fieldsFor hn
  unfold Record.leading
  split
  · have hkey : idKey ≠ refKey := by decide
    simp [Json.mark?, Json.reference?, Json.isNode, Json.identifier?, Entries.get?, hkey,
      Json.get?_zip_eq_none us href]
  · exact Json.mark?_object us hid href

namespace Encoding

namespace Written

variable {P : List Scalar → Prop} {g : Graph} {rules : Rules} {shared : NodeId → Bool}
  {S S' : Record} {items : List (Site × Value)} {ws : List Json}

/-- A record is only added to. -/
theorem grows (h : Written P g rules shared S items ws S') : S <+: S' := by
  induction h using sequence_induction with
  | nil S => exact List.prefix_rfl
  | scalar _ ih => exact ih
  | sequence _ _ _ ihp ih => exact ihp.trans ih
  | dict _ _ _ ihp ih => exact ((List.prefix_append _ _).trans ihp).trans ih
  | again _ _ _ _ ih => exact (List.prefix_append _ _).trans ih
  | first _ _ _ _ ihp ih => exact ((List.prefix_append _ _).trans ihp).trans ih

/-- The nodes and references of what is written are, in order, what the record keeps. -/
theorem marks (hg : g.IsProper) (h : Written TextKeys g rules shared S items ws S') {F : Record}
    (hF : S' <+: F) :
    ∃ T, S' = S ++ T ∧ Json.marks (Json.partsAt (items.map fun x => x.1.position) ws)
      = T.map fun x => (F.mark shared x.1, x.2) := by
  induction h using sequence_induction with
  | nil S => exact ⟨[], (List.append_nil S).symm, rfl⟩
  | @scalar S S' s c _ _ _ ih =>
    obtain ⟨T, hT, hmarks⟩ := ih hF
    refine ⟨T, hT, ?_⟩
    rw [List.map_cons, Json.partsAt_cons, Json.parts_scalarJson, List.singleton_append,
      Json.marks_cons_none (Json.mark?_scalarJson c), hmarks]
  | @sequence S M S' s _ vs _ us _ _ hp hr ihp ih =>
    obtain ⟨T₁, rfl, hparts⟩ := ihp (hr.grows.trans hF)
    obtain ⟨T₂, rfl, hrest⟩ := ih hF
    refine ⟨T₁ ++ T₂, List.append_assoc .., ?_⟩
    rw [s.map_position_parts, ← s.length_parts vs, ← hp.length_eq] at hparts
    rw [List.map_cons, Json.partsAt_cons, Json.parts_array, List.cons_append,
      Json.marks_cons_none rfl, Json.marks_append, hparts, hrest, List.map_append]
  | @dict S M S' s es _ us _ keys hp hr ihp ih =>
    obtain ⟨T₁, rfl, hparts⟩ := ihp (hr.grows.trans hF)
    obtain ⟨T₂, rfl, hrest⟩ := ih hF
    refine ⟨(.spot (.map s.address), s.position) :: (T₁ ++ T₂), by simp, ?_⟩
    rw [s.map_position_parts, ← s.length_parts, ← hp.length_eq] at hparts
    rw [List.map_cons, Json.partsAt_cons, Json.parts_object _ (by simp [hp.length_eq]),
      List.cons_append, Json.marks_cons_some (keys.mark?_entries us), Json.marks_append, hparts,
      hrest, List.map_cons, List.map_append]
    rfl
  | @again S S' s id r _ _ _ _ hr _ ih =>
    obtain ⟨T, rfl, hmarks⟩ := ih hF
    refine ⟨(.reference id, s.position) :: T, by simp, ?_⟩
    obtain ⟨R, rfl⟩ := hF
    -- the identifier is still that of the final record, since records only grow
    have hmark : Record.mark shared (S ++ [(.reference id, s.position)] ++ T ++ R) (.reference id)
        = .reference r := by
      rw [List.append_assoc, List.append_assoc, Record.mark, Record.identifier?_of_append hr]; rfl
    rw [List.map_cons, Json.partsAt_cons, Json.parts_reference, List.cons_append,
      Json.marks_cons_some (m := .reference r) rfl, List.singleton_append,
      Json.marks_cons_none rfl, hmarks, List.map_cons, hmark]
  | @first S M S' s id names _ us _ hid hn hp hr ihp ih =>
    obtain ⟨T₁, rfl, hparts⟩ := ihp (hr.grows.trans hF)
    obtain ⟨T₂, rfl, hrest⟩ := ih hF
    refine ⟨(.spot (.node id), s.position) :: (T₁ ++ T₂), by simp, ?_⟩
    obtain ⟨R, rfl⟩ := hF
    have hlen : us.length = names.length := by rw [hp.length_eq, length_fieldSites, List.length_map]
    -- the node takes the next identifier, and keeps it in the final record
    have hmark := (hg.node id).mark?_selected hn shared S id us
    rw [← Record.identifier?_of_first hid s.position (T₁ ++ T₂ ++ R)] at hmark
    rw [map_position_fieldSites, List.length_map, ← hlen] at hparts
    rw [List.map_cons, Json.partsAt_cons, Json.parts_object_append _ _ hlen, List.cons_append,
      Json.marks_cons_some hmark, Json.marks_append, Json.marks_append, Record.marks_leading,
      List.nil_append, hparts, hrest, List.map_cons, List.map_append]
    simp only [Record.mark, List.append_assoc]

end Written

/-! ### References -/

namespace Record

/-- The nodes that have been referred to. -/
def referenced (S : Record) : List NodeId :=
  S.filterMap fun x => match x.1 with
    | .reference id => some id
    | _ => none

@[simp] theorem referenced_append (S T : Record) :
    (S ++ T).referenced = S.referenced ++ T.referenced :=
  List.filterMap_append

@[simp] theorem referenced_cons_spot (x : Spot) (p : Json.Position) (S : Record) :
    referenced ((.spot x, p) :: S) = S.referenced := rfl

@[simp] theorem referenced_cons_reference (id : NodeId) (p : Json.Position) (S : Record) :
    referenced ((.reference id, p) :: S) = id :: S.referenced := rfl

@[simp] theorem nodes_cons_node (id : NodeId) (p : Json.Position) (S : Record) :
    nodes ((.spot (.node id), p) :: S) = id :: S.nodes := rfl

@[simp] theorem nodes_cons_map (a : Address) (p : Json.Position) (S : Record) :
    nodes ((.spot (.map a), p) :: S) = S.nodes := rfl

@[simp] theorem nodes_cons_reference (id : NodeId) (p : Json.Position) (S : Record) :
    nodes ((.reference id, p) :: S) = S.nodes := rfl

theorem mem_referenced {S : Record} {id : NodeId} :
    id ∈ S.referenced ↔ ∃ p, (Entry.reference id, p) ∈ S := by
  constructor
  · intro h
    obtain ⟨⟨x, p⟩, hx, hid⟩ := List.mem_filterMap.1 h
    match x, hid with
    | .spot _, hid => exact absurd hid (by simp)
    | .reference m, hid => obtain rfl := Option.some.inj hid; exact ⟨p, hx⟩
  · rintro ⟨p, h⟩
    exact List.mem_filterMap.2 ⟨_, h, rfl⟩

/-- Every reference comes behind a shared node that it refers to. -/
def Backward (shared : NodeId → Bool) (S : Record) : Prop :=
  ∀ A id p B, S = A ++ (.reference id, p) :: B → id ∈ Record.named shared A

/-- References stay backward when a spot, or a reference to a shared node that has been written, is
added. -/
theorem Backward.append {shared : NodeId → Bool} {S : Record} (h : S.Backward shared) {x : Entry}
    (hx : ∀ id, x = .reference id → id ∈ S.named shared) (p : Json.Position) :
    Backward shared (S ++ [(x, p)]) := by
  intro A id q B heq
  rcases List.eq_nil_or_concat B with rfl | ⟨B, y, rfl⟩
  · obtain ⟨rfl, hlast⟩ := List.append_inj' heq rfl
    obtain ⟨rfl, -⟩ := Prod.mk.inj (List.cons.inj hlast).1
    exact hx id rfl
  · rw [List.concat_eq_append, ← List.cons_append, ← List.append_assoc] at heq
    exact h A id q B (List.append_inj' heq rfl).1

end Record

namespace Written

variable {P : List Scalar → Prop} {g : Graph} {rules : Rules} {shared : NodeId → Bool}
  {S S' : Record} {items : List (Site × Value)} {ws : List Json}

/-- What is written refers to what has been written. -/
theorem backward (h : Written P g rules shared S items ws S') (hS : S.Backward shared) :
    S'.Backward shared := by
  induction h using sequence_induction with
  | nil S => exact hS
  | scalar _ ih => exact ih hS
  | sequence _ _ _ ihp ih => exact ih (ihp hS)
  | dict _ _ _ ihp ih => exact ih (ihp (hS.append (x := .spot _) nofun _))
  | @again S _ _ id _ _ _ hid hs _ _ ih =>
    refine ih (hS.append (fun m hm => ?_) _)
    rw [← Entry.reference.inj hm]
    exact List.mem_filter.2 ⟨hid, hs⟩
  | first _ _ _ _ ihp ih => exact ih (ihp (hS.append (x := .spot _) nofun _))

/-- The nodes that are written or referred to are those that the values, and the fields of the
written nodes, refer to. -/
theorem count_references (h : Written P g rules shared S items ws S') :
    ∃ T, S' = S ++ T ∧ ∀ id, T.referenced.count id + T.nodes.count id =
      ((items.map Prod.snd).flatMap Value.references).count id
        + (T.nodes.flatMap (outgoing g rules)).count id := by
  induction h using sequence_induction with
  | nil S => exact ⟨[], (List.append_nil S).symm, fun id => rfl⟩
  | scalar _ ih =>
    obtain ⟨T, rfl, hcount⟩ := ih
    exact ⟨T, rfl, hcount⟩
  | @sequence S M S' s _ vs _ _ _ hv _ _ ihp ih =>
    obtain ⟨T₁, rfl, hparts⟩ := ihp
    obtain ⟨T₂, rfl, hrest⟩ := ih
    refine ⟨T₁ ++ T₂, List.append_assoc .., fun id => ?_⟩
    have h₁ := hparts id
    have h₂ := hrest id
    -- the parts are all that a sequence refers to
    rw [s.map_snd_parts] at h₁
    simp only [List.map_cons, List.flatMap_cons, Value.references_of_items? hv,
      Record.referenced_append, Record.nodes_append, List.flatMap_append, List.count_append]
    omega
  | @dict S M S' s es _ _ _ _ _ _ ihp ih =>
    obtain ⟨T₁, rfl, hparts⟩ := ihp
    obtain ⟨T₂, rfl, hrest⟩ := ih
    refine ⟨(.spot (.map s.address), s.position) :: (T₁ ++ T₂), by simp, fun id => ?_⟩
    have h₁ := hparts id
    have h₂ := hrest id
    rw [s.map_snd_parts] at h₁
    simp only [List.map_cons, List.flatMap_cons, Value.references_dict,
      Record.referenced_cons_spot, Record.nodes_cons_map, Record.referenced_append,
      Record.nodes_append, List.flatMap_append, List.count_append]
    omega
  | @again S S' s m _ _ _ _ _ _ _ ih =>
    obtain ⟨T, rfl, hcount⟩ := ih
    refine ⟨(.reference m, s.position) :: T, by simp, fun id => ?_⟩
    have := hcount id
    simp only [List.map_cons, List.flatMap_cons, Value.references_node,
      Record.referenced_cons_reference, Record.nodes_cons_reference, List.count_append,
      List.count_cons, List.count_nil]
    omega
  | @first S M S' s m names _ _ _ _ hn _ _ ihp ih =>
    obtain ⟨T₁, rfl, hparts⟩ := ihp
    obtain ⟨T₂, rfl, hrest⟩ := ih
    refine ⟨(.spot (.node m), s.position) :: (T₁ ++ T₂), by simp, fun id => ?_⟩
    have h₁ := hparts id
    have h₂ := hrest id
    -- what a written node refers to is counted with the values in its fields
    rw [map_snd_fieldSites, ← selectedValues_eq hn, ← outgoing] at h₁
    simp only [List.map_cons, List.flatMap_cons, Value.references_node,
      Record.referenced_cons_spot, Record.nodes_cons_node, Record.referenced_append,
      Record.nodes_append, List.flatMap_append, List.count_append, List.count_cons,
      List.count_nil]
    omega

end Written

end Encoding

end DeclGraph
