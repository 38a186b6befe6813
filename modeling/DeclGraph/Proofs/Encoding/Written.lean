import DeclGraph.Proofs.Encoding.Reachability
import Mathlib

/-!
# What is written of a value

`Encoding.Written` says, without a machine, which JSON values stand for values that are written one
after another: parts in order, a node with its selected fields where it is first met, and a
reference to its identifier wherever it is met again.  It also keeps what the theory of the
document needs: a record of the nodes, maps and references that have been written so far, and of
their positions.
-/

namespace DeclGraph

/-- Where a part of a JSON value stands: the numbers of the parts that lead there. -/
abbrev Json.Position := List Nat

namespace Encoding

/-- Where a value stands in a graph: in the root or in a selected field of a node, and the numbers
of the parts that lead on from there. -/
structure Address where
  /-- The node and the number of the selected field; the root, where there is none. -/
  start : Option (NodeId × Nat)
  /-- The numbers of the parts. -/
  path : List Nat
deriving DecidableEq, Repr

/-- The address of a part. -/
def Address.part (a : Address) (i : Nat) : Address := ⟨a.start, a.path ++ [i]⟩

/-- What becomes an object of the document: a node, or the map at an address. -/
inductive Spot
  /-- A node. -/
  | node (id : NodeId)
  /-- A map; every occurrence of a map counts. -/
  | map (address : Address)
deriving DecidableEq, Repr

/-- Where a value stands in the graph, and where it is written. -/
structure Site where
  /-- The address in the graph. -/
  address : Address
  /-- The position in the document. -/
  position : Json.Position
deriving DecidableEq, Repr

/-- The parts of what stands at a site, each with its own site. -/
def Site.parts (s : Site) (vs : List Value) : List (Site × Value) :=
  vs.zipIdx.map fun x => (⟨s.address.part x.2, s.position ++ [x.2]⟩, x.1)

/-- The values in the selected fields of a node that is written at `p`, each with its own site;
`lead` entries are written in front of them. -/
def fieldSites (id : NodeId) (p : Json.Position) (lead : Nat) (vs : List Value) :
    List (Site × Value) :=
  vs.zipIdx.map fun x => (⟨⟨some (id, x.2), []⟩, p ++ [lead + x.2]⟩, x.1)

/-- What is recorded of a document. -/
inductive Entry
  /-- A node or a map is written. -/
  | spot (x : Spot)
  /-- A node is referred to. -/
  | reference (id : NodeId)
deriving DecidableEq, Repr

/-- What has been written so far, in order, with the positions in the document. -/
abbrev Record := List (Entry × Json.Position)

theorem idxOf?_append (xs ys : List NodeId) (id : NodeId) :
    (xs ++ ys).idxOf? id = (xs.idxOf? id).or ((ys.idxOf? id).map (· + xs.length)) := by
  simp only [List.idxOf?, List.findIdx?_append]

theorem Emission.mem_of_identifier? {named : List NodeId} {id : NodeId} {r : String}
    (h : Emission.identifier? named id = some r) : id ∈ named := by
  obtain ⟨k, hk, -⟩ := Option.map_eq_some_iff.1 h
  by_contra hnot
  rw [List.idxOf?_eq_none_iff.2 hnot] at hk
  exact absurd hk (by simp)

namespace Record

/-- The nodes that have been written. -/
def nodes (S : Record) : List NodeId :=
  S.filterMap fun x => match x.1 with
    | .spot (.node id) => some id
    | _ => none

/-- The nodes that have been written with an identifier. -/
def named (shared : NodeId → Bool) (S : Record) : List NodeId := S.nodes.filter shared

/-- The entries in front of the fields of a node that is written next: its identifier, if it is
shared. -/
def leading (shared : NodeId → Bool) (S : Record) (id : NodeId) : List (String × Json) :=
  if shared id then [(idKey, .string (Emission.identifier (S.named shared).length))] else []

@[simp] theorem nodes_append (S T : Record) : (S ++ T).nodes = S.nodes ++ T.nodes :=
  List.filterMap_append

@[simp] theorem nodes_node (id : NodeId) (p : Json.Position) :
    nodes [(.spot (.node id), p)] = [id] := rfl

@[simp] theorem nodes_map (a : Address) (p : Json.Position) :
    nodes [(.spot (.map a), p)] = [] := rfl

@[simp] theorem nodes_reference (id : NodeId) (p : Json.Position) :
    nodes [(.reference id, p)] = [] := rfl

theorem mem_nodes {S : Record} {id : NodeId} :
    id ∈ S.nodes ↔ ∃ p, (Entry.spot (.node id), p) ∈ S := by
  constructor
  · intro h
    obtain ⟨⟨x, p⟩, hx, hid⟩ := List.mem_filterMap.1 h
    match x, hid with
    | .spot (.node m), hid => obtain rfl := Option.some.inj hid; exact ⟨p, hx⟩
    | .spot (.map _), hid => exact absurd hid (by simp)
    | .reference _, hid => exact absurd hid (by simp)
  · rintro ⟨p, h⟩
    exact List.mem_filterMap.2 ⟨_, h, rfl⟩

@[simp] theorem named_append (shared : NodeId → Bool) (S T : Record) :
    (S ++ T).named shared = S.named shared ++ T.named shared := by
  simp [named]

@[simp] theorem named_map (shared : NodeId → Bool) (a : Address) (p : Json.Position) :
    named shared [(.spot (.map a), p)] = [] := rfl

@[simp] theorem named_reference (shared : NodeId → Bool) (id : NodeId) (p : Json.Position) :
    named shared [(.reference id, p)] = [] := rfl

theorem named_node (shared : NodeId → Bool) (id : NodeId) (p : Json.Position) :
    named shared [(.spot (.node id), p)] = if shared id then [id] else [] := by
  simp [named, List.filter_cons]

theorem keys_leading (shared : NodeId → Bool) (S : Record) (id : NodeId) :
    ∀ e ∈ leading shared S id, e.1 = idKey := by
  unfold leading
  split <;> simp

theorem length_leading (shared : NodeId → Bool) (S : Record) (id : NodeId) :
    (leading shared S id).length = if shared id then 1 else 0 := by
  unfold leading
  split <;> rfl

end Record

/-- The values `items`, written one after another behind what `S` records, become `ws`; in the end
the last record stands for what has been written.  The keys of every map that is written have the
property `P`. -/
inductive Written (P : List Scalar → Prop) (g : Graph) (rules : Rules) (shared : NodeId → Bool) :
    Record → List (Site × Value) → List Json → Record → Prop
  /-- Nothing is written. -/
  | nil (S : Record) : Written P g rules shared S [] [] S
  /-- A scalar is written as it is. -/
  | scalar {S S' : Record} {s : Site} {c : Scalar} {items ws}
    (rest : Written P g rules shared S items ws S') :
    Written P g rules shared S ((s, .scalar c) :: items) (Emission.scalarJson c :: ws) S'
  /-- A list is written part by part. -/
  | list {S M S' : Record} {s : Site} {vs items us ws}
    (parts : Written P g rules shared S (s.parts vs) us M)
    (rest : Written P g rules shared M items ws S') :
    Written P g rules shared S ((s, .list vs) :: items) (.array us :: ws) S'
  /-- A tuple is written part by part. -/
  | tuple {S M S' : Record} {s : Site} {vs items us ws}
    (parts : Written P g rules shared S (s.parts vs) us M)
    (rest : Written P g rules shared M items ws S') :
    Written P g rules shared S ((s, .tuple vs) :: items) (.array us :: ws) S'
  /-- A map is written entry by entry. -/
  | dict {S M S' : Record} {s : Site} {es items us ws} (keys : P (es.map Prod.fst))
    (parts : Written P g rules shared (S ++ [(.spot (.map s.address), s.position)])
      (s.parts (es.map Prod.snd)) us M)
    (rest : Written P g rules shared M items ws S') :
    Written P g rules shared S ((s, .dict es) :: items)
      (.object ((es.map fun e => e.1.display).zip us) :: ws) S'
  /-- A node that has been written already is written as a reference. -/
  | again {S S' : Record} {s : Site} {id r items ws} (written : id ∈ S.nodes)
    (isShared : shared id = true) (ref : Emission.identifier? (S.named shared) id = some r)
    (rest : Written P g rules shared (S ++ [(.reference id, s.position)]) items ws S') :
    Written P g rules shared S ((s, .node id) :: items) (.object [(refKey, .string r)] :: ws) S'
  /-- A node that has not been written is written with its selected fields. -/
  | first {S M S' : Record} {s : Site} {id names items us ws} (unwritten : id ∉ S.nodes)
    (select : rules.fieldsFor (g.node id).schema = .ok names)
    (parts : Written P g rules shared (S ++ [(.spot (.node id), s.position)])
      (fieldSites id s.position (S.leading shared id).length (names.map (g.node id).get)) us M)
    (rest : Written P g rules shared M items ws S') :
    Written P g rules shared S ((s, .node id) :: items)
      (.object (S.leading shared id ++ names.zip us) :: ws) S'

namespace Written

variable {P : List Scalar → Prop} {g : Graph} {rules : Rules} {shared : NodeId → Bool}

/-- A list or a tuple is written part by part. -/
theorem sequence {S M S' : Record} {s : Site} {v : Value} {vs : List Value}
    {items : List (Site × Value)} {us ws : List Json} (hv : v.items? = some vs)
    (parts : Written P g rules shared S (s.parts vs) us M)
    (rest : Written P g rules shared M items ws S') :
    Written P g rules shared S ((s, v) :: items) (.array us :: ws) S' := by
  rcases Value.eq_of_items? hv with rfl | rfl
  · exact .list parts rest
  · exact .tuple parts rest

/-- Induction along what is written; the document does not tell a list from a tuple, and neither
do the cases. -/
@[elab_as_elim]
theorem sequence_induction
    {motive : ∀ (S : Record) (items : List (Site × Value)) (ws : List Json) (S' : Record),
      Written P g rules shared S items ws S' → Prop}
    (nil : ∀ S : Record, motive S [] [] S (.nil S))
    (scalar : ∀ {S S' : Record} {s : Site} {c : Scalar} {items : List (Site × Value)}
      {ws : List Json} (rest : Written P g rules shared S items ws S'),
      motive S items ws S' rest →
      motive S ((s, .scalar c) :: items) (Emission.scalarJson c :: ws) S' rest.scalar)
    (sequence : ∀ {S M S' : Record} {s : Site} {v : Value} {vs : List Value}
      {items : List (Site × Value)} {us ws : List Json} (hv : v.items? = some vs)
      (parts : Written P g rules shared S (s.parts vs) us M)
      (rest : Written P g rules shared M items ws S'),
      motive S (s.parts vs) us M parts → motive M items ws S' rest →
      motive S ((s, v) :: items) (.array us :: ws) S' (.sequence hv parts rest))
    (dict : ∀ {S M S' : Record} {s : Site} {es : List (Scalar × Value)}
      {items : List (Site × Value)} {us ws : List Json} (keys : P (es.map Prod.fst))
      (parts : Written P g rules shared (S ++ [(.spot (.map s.address), s.position)])
        (s.parts (es.map Prod.snd)) us M)
      (rest : Written P g rules shared M items ws S'),
      motive _ _ us M parts → motive M items ws S' rest →
      motive S ((s, .dict es) :: items) (.object ((es.map fun e => e.1.display).zip us) :: ws) S'
        (.dict keys parts rest))
    (again : ∀ {S S' : Record} {s : Site} {id : NodeId} {r : String}
      {items : List (Site × Value)} {ws : List Json} (written : id ∈ S.nodes)
      (isShared : shared id = true) (ref : Emission.identifier? (S.named shared) id = some r)
      (rest : Written P g rules shared (S ++ [(.reference id, s.position)]) items ws S'),
      motive _ items ws S' rest →
      motive S ((s, .node id) :: items) (.object [(refKey, .string r)] :: ws) S'
        (.again written isShared ref rest))
    (first : ∀ {S M S' : Record} {s : Site} {id : NodeId} {names : List String}
      {items : List (Site × Value)} {us ws : List Json} (unwritten : id ∉ S.nodes)
      (select : rules.fieldsFor (g.node id).schema = .ok names)
      (parts : Written P g rules shared (S ++ [(.spot (.node id), s.position)])
        (fieldSites id s.position (S.leading shared id).length (names.map (g.node id).get)) us M)
      (rest : Written P g rules shared M items ws S'),
      motive _ _ us M parts → motive M items ws S' rest →
      motive S ((s, .node id) :: items) (.object (S.leading shared id ++ names.zip us) :: ws) S'
        (.first unwritten select parts rest))
    {S : Record} {items : List (Site × Value)} {ws : List Json} {S' : Record}
    (h : Written P g rules shared S items ws S') : motive S items ws S' h := by
  induction h with
  | nil S => exact nil S
  | scalar rest ih => exact scalar rest ih
  | list parts rest ihp ih => exact sequence rfl parts rest ihp ih
  | tuple parts rest ihp ih => exact sequence rfl parts rest ihp ih
  | dict keys parts rest ihp ih => exact dict keys parts rest ihp ih
  | again written isShared ref rest ih => exact again written isShared ref rest ih
  | first unwritten select parts rest ihp ih => exact first unwritten select parts rest ihp ih

/-- Every value becomes one JSON value. -/
theorem length_eq {S S' : Record} {items : List (Site × Value)} {ws : List Json}
    (h : Written P g rules shared S items ws S') : ws.length = items.length := by
  induction h using sequence_induction with
  | nil => rfl
  | scalar _ ih => simp [ih]
  | sequence _ _ _ _ ih => simp [ih]
  | dict _ _ _ _ ih => simp [ih]
  | again _ _ _ _ ih => simp [ih]
  | first _ _ _ _ _ ih => simp [ih]

/-- What is written of two lists of values is written of the first and then of the second. -/
theorem split {S S' : Record} {items₁ items₂ : List (Site × Value)} {ws : List Json}
    (h : Written P g rules shared S (items₁ ++ items₂) ws S') :
    ∃ ws₁ ws₂ M, ws = ws₁ ++ ws₂ ∧ Written P g rules shared S items₁ ws₁ M ∧
      Written P g rules shared M items₂ ws₂ S' := by
  induction items₁ generalizing S ws with
  | nil => exact ⟨[], ws, S, rfl, .nil S, h⟩
  | cons item items₁ ih =>
    rw [List.cons_append] at h
    cases h with
    | scalar rest =>
      obtain ⟨ws₁, ws₂, M, rfl, h₁, h₂⟩ := ih rest
      exact ⟨_ :: ws₁, ws₂, M, rfl, .scalar h₁, h₂⟩
    | list parts rest =>
      obtain ⟨ws₁, ws₂, M, rfl, h₁, h₂⟩ := ih rest
      exact ⟨_ :: ws₁, ws₂, M, rfl, .list parts h₁, h₂⟩
    | tuple parts rest =>
      obtain ⟨ws₁, ws₂, M, rfl, h₁, h₂⟩ := ih rest
      exact ⟨_ :: ws₁, ws₂, M, rfl, .tuple parts h₁, h₂⟩
    | dict keys parts rest =>
      obtain ⟨ws₁, ws₂, M, rfl, h₁, h₂⟩ := ih rest
      exact ⟨_ :: ws₁, ws₂, M, rfl, .dict keys parts h₁, h₂⟩
    | again hid hs hr rest =>
      obtain ⟨ws₁, ws₂, M, rfl, h₁, h₂⟩ := ih rest
      exact ⟨_ :: ws₁, ws₂, M, rfl, .again hid hs hr h₁, h₂⟩
    | first hid hn parts rest =>
      obtain ⟨ws₁, ws₂, M, rfl, h₁, h₂⟩ := ih rest
      exact ⟨_ :: ws₁, ws₂, M, rfl, .first hid hn parts h₁, h₂⟩

end Written

/-! ### Sites -/

@[simp] theorem Site.length_parts (s : Site) (vs : List Value) :
    (s.parts vs).length = vs.length := by
  simp [parts]

@[simp] theorem length_fieldSites (id : NodeId) (p : Json.Position) (lead : Nat)
    (vs : List Value) : (fieldSites id p lead vs).length = vs.length := by
  simp [fieldSites]

theorem Site.map_snd_parts (s : Site) (vs : List Value) : (s.parts vs).map Prod.snd = vs := by
  rw [Site.parts, List.map_map]
  exact List.zipIdx_map_fst 0 vs

theorem map_snd_fieldSites (id : NodeId) (p : Json.Position) (lead : Nat) (vs : List Value) :
    (fieldSites id p lead vs).map Prod.snd = vs := by
  rw [fieldSites, List.map_map]
  exact List.zipIdx_map_fst 0 vs

end Encoding

end DeclGraph
