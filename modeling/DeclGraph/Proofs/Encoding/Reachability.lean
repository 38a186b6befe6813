import DeclGraph.Encoding.Basic
import DeclGraph.Proofs.Entries
import DeclGraph.Proofs.Projection.Selection

/-!
# What encoding reaches

`Encoding.Reaches` says which nodes can be reached from a value through the fields that rules
select, and `Encoding.ReachedTwice` which of them stand at more than one place.  Both speak of the
graph alone and not of a walk through it; any list of the reached nodes without repetition gives
the same count (`reachedTwice_iff`).

The nodes of a graph are `Node.IsProper` when their field names are told apart, and none of them is
a key that encoding uses for itself.  `sum_weight_le` bounds the places in the fields of different
nodes, which is what makes the walks of encoding come to their end.
-/

namespace DeclGraph

open Encoding

namespace Value

/-! ### Parts and references -/

theorem eq_of_items? {v : Value} {items : List Value} (h : v.items? = some items) :
    v = .list items ∨ v = .tuple items := by
  cases v with
  | list vs => exact .inl (congrArg _ (Option.some.inj h))
  | tuple vs => exact .inr (congrArg _ (Option.some.inj h))
  | _ => exact absurd h (by simp [items?])

theorem parts_of_items? {v : Value} {items : List Value} (h : v.items? = some items) :
    parts v = items := by
  rcases eq_of_items? h with rfl | rfl <;> rfl

theorem sizeItems_eq (items : List Value) : sizeItems items = (items.map size).sum := by
  induction items with
  | nil => rfl
  | cons v rest ih => rw [sizeItems, ih, List.map_cons, List.sum_cons]

theorem sizeEntries_eq (entries : List (Scalar × Value)) :
    sizeEntries entries = ((entries.map Prod.snd).map size).sum := by
  induction entries with
  | nil => rfl
  | cons e rest ih =>
    obtain ⟨k, v⟩ := e
    rw [sizeEntries, ih, List.map_cons, List.map_cons, List.sum_cons]

/-- The places in a value are itself and those in its parts. -/
theorem size_eq_parts (v : Value) : v.size = 1 + ((parts v).map size).sum := by
  cases v with
  | list items => rw [size, sizeItems_eq]; rfl
  | tuple items => rw [size, sizeItems_eq]; rfl
  | dict entries => rw [size, sizeEntries_eq]; rfl
  | scalar s => simp [size, parts]
  | node id => simp [size, parts]
  | foreign t => simp [size, parts]

mutual

/-- The nodes that a value refers to, in order, each as often as it does. -/
def references : Value → List NodeId
  | .list items => referencesOfItems items
  | .tuple items => referencesOfItems items
  | .dict entries => referencesOfEntries entries
  | .node id => [id]
  | _ => []

/-- The nodes that the items of a list refer to. -/
def referencesOfItems : List Value → List NodeId
  | [] => []
  | v :: rest => references v ++ referencesOfItems rest

/-- The nodes that the values of a map refer to. -/
def referencesOfEntries : List (Scalar × Value) → List NodeId
  | [] => []
  | (_, v) :: rest => references v ++ referencesOfEntries rest

end

theorem referencesOfItems_eq (items : List Value) :
    referencesOfItems items = items.flatMap references := by
  induction items with
  | nil => rfl
  | cons v rest ih => rw [referencesOfItems, ih, List.flatMap_cons]

theorem referencesOfEntries_eq (entries : List (Scalar × Value)) :
    referencesOfEntries entries = (entries.map Prod.snd).flatMap references := by
  induction entries with
  | nil => rfl
  | cons e rest ih =>
    obtain ⟨k, v⟩ := e
    rw [referencesOfEntries, ih, List.map_cons, List.flatMap_cons]

@[simp] theorem references_node (id : NodeId) : references (.node id) = [id] := by
  rw [references]

@[simp] theorem references_scalar (c : Scalar) : references (.scalar c) = [] := by
  simp [references]

@[simp] theorem references_list (items : List Value) :
    references (.list items) = items.flatMap references := by
  rw [references, referencesOfItems_eq]

@[simp] theorem references_tuple (items : List Value) :
    references (.tuple items) = items.flatMap references := by
  rw [references, referencesOfItems_eq]

@[simp] theorem references_dict (entries : List (Scalar × Value)) :
    references (.dict entries) = (entries.map Prod.snd).flatMap references := by
  rw [references, referencesOfEntries_eq]

theorem references_of_items? {v : Value} {items : List Value} (h : v.items? = some items) :
    references v = items.flatMap references := by
  rcases eq_of_items? h with rfl | rfl
  · exact references_list items
  · exact references_tuple items

/-- A value that is no node refers to what its parts refer to. -/
theorem references_eq_parts {v : Value} (hv : ∀ id, v ≠ .node id) :
    v.references = (parts v).flatMap references := by
  cases v with
  | list items => rw [references_list]; rfl
  | tuple items => rw [references_tuple]; rfl
  | dict entries => rw [references_dict]; rfl
  | scalar s => simp [parts]
  | node id => exact absurd rfl (hv id)
  | foreign t => simp [references, parts]

/-- Every map in a value has keys with a property. -/
inductive AllMaps (P : List Scalar → Prop) : Value → Prop
  | scalar (s : Scalar) : AllMaps P (.scalar s)
  | node (id : NodeId) : AllMaps P (.node id)
  | foreign (typeName : String) : AllMaps P (.foreign typeName)
  | list {items : List Value} (h : ∀ v ∈ items, AllMaps P v) : AllMaps P (.list items)
  | tuple {items : List Value} (h : ∀ v ∈ items, AllMaps P v) : AllMaps P (.tuple items)
  | dict {entries : List (Scalar × Value)} (keys : P (entries.map Prod.fst))
    (h : ∀ v ∈ entries.map Prod.snd, AllMaps P v) : AllMaps P (.dict entries)

theorem AllMaps.of_mem_parts {P : List Scalar → Prop} {v w : Value} (hv : v.AllMaps P)
    (hw : w ∈ parts v) : w.AllMaps P := by
  cases hv with
  | list h => exact h w hw
  | tuple h => exact h w hw
  | dict _ h => exact h w hw
  | scalar | node | foreign => simp [parts] at hw

theorem AllMaps.mono {P Q : List Scalar → Prop} (hPQ : ∀ keys, P keys → Q keys) {v : Value}
    (hv : v.AllMaps P) : v.AllMaps Q := by
  induction hv with
  | scalar s => exact .scalar s
  | node id => exact .node id
  | foreign t => exact .foreign t
  | list _ ih => exact .list ih
  | tuple _ ih => exact .tuple ih
  | dict keys _ ih => exact .dict (hPQ _ keys) ih

end Value

/-! ### Proper graphs -/

/-- No two fields of the node have one name, and no field is called like a key that encoding uses
for itself. -/
structure Node.IsProper (n : Node) : Prop where
  /-- The names of the fields are told apart. -/
  nodup : n.fieldNames.Nodup
  /-- No field is called like the key of an identifier. -/
  idKey_notMem : idKey ∉ n.fieldNames
  /-- No field is called like the key of a reference. -/
  refKey_notMem : refKey ∉ n.fieldNames

theorem Node.isProper_make (kind : Kind) (given : List (String × Value)) :
    (Node.make kind given).IsProper := by
  refine ⟨?_, ?_, ?_⟩ <;> rw [fieldNames_make]
  · exact kind.nodup_fieldNames
  · cases kind <;> decide
  · cases kind <;> decide

theorem Node.isProper_absent : Node.absent.IsProper :=
  ⟨by decide, by decide, by decide⟩

theorem Node.mem_fields_of_get {n : Node} {name : String} (h : name ∈ n.fieldNames) :
    ∃ e ∈ n.fields, e.2 = n.get name := by
  obtain ⟨v, hv⟩ := Entries.exists_of_mem_keys h
  exact ⟨(name, v), Entries.mem_of_get? hv, by rw [get, get?, hv]; rfl⟩

namespace Graph

/-- Every node of the graph is proper. -/
def IsProper (g : Graph) : Prop := ∀ n ∈ g.nodes.toList, n.IsProper

theorem node_mem_or (g : Graph) (id : NodeId) :
    g.node id ∈ g.nodes.toList ∨ g.node id = .absent := by
  unfold node
  rw [Array.getD_eq_getD_getElem?]
  cases h : g.nodes[id]? with
  | none => exact .inr rfl
  | some n => exact .inl (Array.mem_toList_iff.2 (Array.mem_of_getElem? h))

theorem IsProper.node {g : Graph} (hg : g.IsProper) (id : NodeId) : (g.node id).IsProper := by
  rcases g.node_mem_or id with h | h
  · exact hg _ h
  · rw [h]; exact Node.isProper_absent

/-- Every map in a value, and in the fields of the graph, has keys with a property. -/
structure AllMaps (g : Graph) (P : List Scalar → Prop) (root : Value) : Prop where
  /-- The maps in the value. -/
  root : root.AllMaps P
  /-- The maps in the fields. -/
  fields : ∀ n ∈ g.nodes.toList, ∀ e ∈ n.fields, e.2.AllMaps P

theorem AllMaps.mono {g : Graph} {P Q : List Scalar → Prop} (hPQ : ∀ keys, P keys → Q keys)
    {root : Value} (h : g.AllMaps P root) : g.AllMaps Q root :=
  ⟨h.root.mono hPQ, fun n hn e he => (h.fields n hn e he).mono hPQ⟩

end Graph

namespace Encoding

/-! ### Keys of maps -/

/-- A list of keys whose texts are told apart. -/
def DisplayedApart (keys : List Scalar) : Prop := (keys.map Scalar.display).Nodup

/-- The keys of a map that can be told in a document: texts that are told apart, none of which is a
key that encoding uses for itself. -/
structure TextKeys (keys : List Scalar) : Prop where
  /-- The keys are told apart. -/
  nodup : keys.Nodup
  /-- The keys are texts. -/
  text : ∀ k ∈ keys, ∃ t, k = .text t ∧ t ≠ idKey ∧ t ≠ refKey

namespace TextKeys

variable {keys : List Scalar}

theorem map_text_display (h : TextKeys keys) : (keys.map Scalar.display).map .text = keys := by
  rw [List.map_map]
  refine (List.map_congr_left fun k hk => ?_).trans (List.map_id keys)
  obtain ⟨t, rfl, -⟩ := h.text k hk
  rfl

theorem displayedApart (h : TextKeys keys) : DisplayedApart keys := by
  have := h.nodup
  rw [← h.map_text_display] at this
  exact this.of_map _

theorem idKey_notMem (h : TextKeys keys) : idKey ∉ keys.map Scalar.display := by
  intro hmem
  obtain ⟨k, hk, heq⟩ := List.mem_map.1 hmem
  obtain ⟨t, rfl, hid, -⟩ := h.text k hk
  exact hid heq

theorem refKey_notMem (h : TextKeys keys) : refKey ∉ keys.map Scalar.display := by
  intro hmem
  obtain ⟨k, hk, heq⟩ := List.mem_map.1 hmem
  obtain ⟨t, rfl, -, href⟩ := h.text k hk
  exact href heq

end TextKeys

/-! ### Selected fields -/

/-- The names that rules select are names of fields, in order. -/
theorem sublist_of_fieldsFor {rules : Rules} {n : Node} {names : List String}
    (h : rules.fieldsFor n.schema = .ok names) : names.Sublist n.fieldNames := by
  obtain ⟨-, rfl⟩ := Rules.fieldsFor_eq_ok_iff.1 h
  exact rules.sublist_projection n

end Encoding

theorem Node.IsProper.idKey_notMem_of_fieldsFor {rules : Rules} {n : Node} (hnode : n.IsProper)
    {names : List String} (h : rules.fieldsFor n.schema = .ok names) : idKey ∉ names :=
  fun hid => hnode.idKey_notMem ((sublist_of_fieldsFor h).subset hid)

theorem Node.IsProper.refKey_notMem_of_fieldsFor {rules : Rules} {n : Node} (hnode : n.IsProper)
    {names : List String} (h : rules.fieldsFor n.schema = .ok names) : refKey ∉ names :=
  fun href => hnode.refKey_notMem ((sublist_of_fieldsFor h).subset href)

namespace Encoding

/-- The values that rules select stand in fields of the graph. -/
theorem exists_field_of_mem_get {g : Graph} {rules : Rules} {id : NodeId} {names : List String}
    (hn : rules.fieldsFor (g.node id).schema = .ok names) {v : Value}
    (hv : v ∈ names.map (g.node id).get) : ∃ n ∈ g.nodes.toList, ∃ e ∈ n.fields, e.2 = v := by
  obtain ⟨name, hname, rfl⟩ := List.mem_map.1 hv
  obtain ⟨e, he, hev⟩ := Node.mem_fields_of_get ((sublist_of_fieldsFor hn).subset hname)
  rcases g.node_mem_or id with hid | hid
  · exact ⟨_, hid, e, he, hev⟩
  · rw [hid] at he; simp [Node.absent] at he

/-- The maps in the selected fields of a node have what all the maps of the graph have. -/
theorem allMaps_get {g : Graph} {P : List Scalar → Prop} {root : Value} (h : g.AllMaps P root)
    {rules : Rules} {id : NodeId} {names : List String}
    (hn : rules.fieldsFor (g.node id).schema = .ok names) :
    ∀ v ∈ names.map (g.node id).get, v.AllMaps P := by
  intro v hv
  obtain ⟨n, hmem, e, he, rfl⟩ := exists_field_of_mem_get hn hv
  exact h.fields n hmem e he

/-- The values in the selected fields of the node at a place; none where the rules do not fit. -/
def selectedValues (g : Graph) (rules : Rules) (id : NodeId) : List Value :=
  match selected rules (g.node id) with
  | .ok values => values
  | .error _ => []

theorem selectedValues_eq {g : Graph} {rules : Rules} {id : NodeId} {names : List String}
    (h : rules.fieldsFor (g.node id).schema = .ok names) :
    selectedValues g rules id = names.map (g.node id).get := by
  rw [selectedValues, selected, h]; rfl

/-- The nodes that the selected fields of a node refer to. -/
def outgoing (g : Graph) (rules : Rules) (id : NodeId) : List NodeId :=
  (selectedValues g rules id).flatMap Value.references

/-! ### Weights -/

/-- The number of places in the fields of a node. -/
def weight (n : Node) : Nat := (n.fields.map fun e => e.2.size).sum

/-- The selected fields of a proper node have no more places than all its fields. -/
theorem sum_size_selected_le {rules : Rules} {n : Node} (hn : n.IsProper) {names : List String}
    (h : rules.fieldsFor n.schema = .ok names) :
    ((names.map n.get).map Value.size).sum ≤ weight n := by
  have hall : n.fieldNames.map n.get = n.fields.map Prod.snd := by
    rw [Node.fieldNames, List.map_map]
    refine List.map_congr_left fun e he => ?_
    show (Entries.get? e.1 n.fields).getD .null = e.2
    rw [Entries.get?_of_mem hn.nodup he]; rfl
  have hsub :
      ((names.map n.get).map Value.size).Sublist ((n.fields.map Prod.snd).map Value.size) := by
    rw [← hall]
    exact ((sublist_of_fieldsFor h).map _).map _
  calc ((names.map n.get).map Value.size).sum
      ≤ ((n.fields.map Prod.snd).map Value.size).sum := hsub.sum_le_sum fun _ _ => Nat.zero_le _
    _ = weight n := by rw [weight, List.map_map]; rfl

/-- Different nodes have no more places together than the graph. -/
theorem sum_weight_le (g : Graph) {ids : List NodeId} (h : ids.Nodup) :
    (ids.map fun id => weight (g.node id)).sum ≤ g.places := by
  have hplaces : g.places = ((List.range g.size).map fun id => weight (g.node id)).sum := by
    have : g.nodes.toList = (List.range g.size).map g.node := by
      refine List.ext_getElem (by simp [Graph.size]) fun i hi _ => ?_
      have hi' : i < g.nodes.size := by simpa using hi
      simp [Graph.node, Array.getD, hi']
    show (g.nodes.toList.map weight).sum = _
    rw [this, List.map_map]; rfl
  -- an id beyond the graph stands for no node and weighs nothing
  have hzero : ∀ id, id ∉ List.range g.size → weight (g.node id) = 0 := by
    intro id hid
    have : g.node id = .absent := by
      have hid' : ¬ id < g.nodes.size := by simpa [Graph.size] using hid
      simp [Graph.node, Array.getD, hid']
    rw [this]; rfl
  have hin : (ids.map fun id => weight (g.node id)).sum
      = ((ids.filter (· ∈ List.range g.size)).map fun id => weight (g.node id)).sum := by
    clear h
    induction ids with
    | nil => rfl
    | cons id rest ih =>
      by_cases hid : id ∈ List.range g.size
      · rw [List.filter_cons_of_pos (by simpa using hid), List.map_cons, List.map_cons,
          List.sum_cons, List.sum_cons, ih]
      · rw [List.filter_cons_of_neg (by simpa using hid), List.map_cons, List.sum_cons,
          hzero id hid, Nat.zero_add, ih]
  -- the others are different numbers below the size
  have hsub : (ids.filter (· ∈ List.range g.size)).Subperm (List.range g.size) :=
    List.subperm_of_subset (h.filter _) fun id hid => by simpa using (List.mem_filter.1 hid).2
  obtain ⟨l, hperm, hsl⟩ := hsub
  rw [hin, hplaces, ← (hperm.map _).sum_eq]
  exact (hsl.map _).sum_le_sum fun _ _ => Nat.zero_le _

/-! ### Reaching -/

/-- A node can be reached from a value through selected fields. -/
inductive Reaches (g : Graph) (rules : Rules) (root : Value) : NodeId → Prop
  /-- What the value refers to. -/
  | root {id : NodeId} (h : id ∈ root.references) : Reaches g rules root id
  /-- What the selected fields of a reached node refer to. -/
  | field {id next : NodeId} (reached : Reaches g rules root id) (h : next ∈ outgoing g rules id) :
    Reaches g rules root next

/-- The references that stand in a value and in the selected fields of nodes. -/
def referencesOf (g : Graph) (rules : Rules) (root : Value) (ids : List NodeId) : List NodeId :=
  root.references ++ ids.flatMap (outgoing g rules)

/-- A node is reached more than once: of the references in the value and in the selected fields of
the reached nodes, taken together, more than one is to the node. -/
def ReachedTwice (g : Graph) (rules : Rules) (root : Value) (id : NodeId) : Prop :=
  ∃ ids : List NodeId, ids.Nodup ∧ (∀ m, m ∈ ids ↔ Reaches g rules root m) ∧
    1 < (referencesOf g rules root ids).count id

/-- Any list of the reached nodes without repetition tells which are reached more than once. -/
theorem reachedTwice_iff {g : Graph} {rules : Rules} {root : Value} {ids : List NodeId}
    (hnd : ids.Nodup) (hmem : ∀ m, m ∈ ids ↔ Reaches g rules root m) (id : NodeId) :
    ReachedTwice g rules root id ↔ 1 < (referencesOf g rules root ids).count id := by
  constructor
  · rintro ⟨ids', hnd', hmem', hcount⟩
    have hperm : ids'.Perm ids :=
      (List.perm_ext_iff_of_nodup hnd' hnd).2 fun m => (hmem' m).trans (hmem m).symm
    rwa [referencesOf, ((hperm.flatMap_right _).append_left _).count_eq] at hcount
  · exact fun hcount => ⟨ids, hnd, hmem, hcount⟩

end Encoding

end DeclGraph
