import DeclGraph.Proofs.Dictionary
import DeclGraph.Proofs.Encoding.Reachability
import DeclGraph.Proofs.Projection.Selection

/-!
# Documents with notes

A `Sheet` is a document in which every object is noted down as what it stands for: a map, a node
that is written there with its fields, or a reference to a node that is written elsewhere.
`Sheet.json` is the document without the notes.

`Sheet.Shows` says what must be written of a value for the sheet to show it, whatever the machine
that writes it: the items of a list in order, the entries of a map under the texts of their keys,
and of a node the fields that the rules select, in the order of its type.  Only what becomes of
entries with one text is left open.
-/

namespace DeclGraph

namespace Encoding

/-- A document with notes on what its objects are. -/
inductive Sheet
  /-- A scalar. -/
  | scalar (s : Scalar)
  /-- A list or a tuple. -/
  | list (items : List Sheet)
  /-- A map. -/
  | map (entries : List (String × Sheet))
  /-- A node with its fields, and its identifier if it has one. -/
  | inline (id : NodeId) (identifier? : Option String) (fields : List (String × Sheet))
  /-- A reference to a node by its identifier. -/
  | reference (id : NodeId) (identifier : String)

namespace Sheet

/-! ### The document -/

mutual

/-- The document without the notes. -/
def json : Sheet → Json
  | .scalar s => Emission.scalarJson s
  | .list items => .array (jsonOfItems items)
  | .map entries => .object (jsonOfEntries entries)
  | .inline _ identifier? fields =>
    .object ((identifier?.toList.map fun r => (idKey, .string r)) ++ jsonOfEntries fields)
  | .reference _ r => .object [(refKey, .string r)]

/-- The documents of the items of a list. -/
def jsonOfItems : List Sheet → List Json
  | [] => []
  | u :: rest => json u :: jsonOfItems rest

/-- The documents of the entries of an object. -/
def jsonOfEntries : List (String × Sheet) → List (String × Json)
  | [] => []
  | (k, u) :: rest => (k, json u) :: jsonOfEntries rest

end

theorem jsonOfItems_eq (items : List Sheet) : jsonOfItems items = items.map json := by
  induction items with
  | nil => rfl
  | cons u rest ih => rw [jsonOfItems, ih, List.map_cons]

theorem jsonOfEntries_eq (entries : List (String × Sheet)) :
    jsonOfEntries entries = entries.map fun e => (e.1, e.2.json) := by
  induction entries with
  | nil => rfl
  | cons e rest ih =>
    obtain ⟨k, u⟩ := e
    rw [jsonOfEntries, ih, List.map_cons]

theorem json_list (items : List Sheet) : (list items).json = .array (items.map json) := by
  rw [json, jsonOfItems_eq]

theorem json_map (entries : List (String × Sheet)) :
    (map entries).json = .object (entries.map fun e => (e.1, e.2.json)) := by
  rw [json, jsonOfEntries_eq]

theorem json_inline (id : NodeId) (identifier? : Option String) (fields : List (String × Sheet)) :
    (inline id identifier? fields).json = .object
      ((identifier?.toList.map fun r => (idKey, .string r))
        ++ fields.map fun e => (e.1, e.2.json)) := by
  rw [json, jsonOfEntries_eq]

/-- The entries of a map of sheets, without the notes. -/
theorem map_json_zip (keys : List String) (us : List Sheet) :
    (keys.zip us).map (fun e => (e.1, e.2.json)) = keys.zip (us.map json) := by
  rw [List.zip_map_right]; rfl

/-! ### Parts -/

mutual

/-- All that stands in a sheet, in the order of the text. -/
def parts : Sheet → List Sheet
  | .scalar s => [.scalar s]
  | .list items => .list items :: partsOfItems items
  | .map entries => .map entries :: partsOfEntries entries
  | .inline id identifier? fields => .inline id identifier? fields :: partsOfEntries fields
  | .reference id r => [.reference id r]

/-- All that stands in the items of a list. -/
def partsOfItems : List Sheet → List Sheet
  | [] => []
  | u :: rest => parts u ++ partsOfItems rest

/-- All that stands in the entries of an object. -/
def partsOfEntries : List (String × Sheet) → List Sheet
  | [] => []
  | (_, u) :: rest => parts u ++ partsOfEntries rest

end

theorem partsOfItems_eq (items : List Sheet) : partsOfItems items = items.flatMap parts := by
  induction items with
  | nil => rfl
  | cons u rest ih => rw [partsOfItems, ih, List.flatMap_cons]

theorem partsOfEntries_eq (entries : List (String × Sheet)) :
    partsOfEntries entries = (entries.map Prod.snd).flatMap parts := by
  induction entries with
  | nil => rfl
  | cons e rest ih =>
    obtain ⟨k, u⟩ := e
    rw [partsOfEntries, ih, List.map_cons, List.flatMap_cons]

/-- The sheets that stand in a sheet next to each other. -/
def children : Sheet → List Sheet
  | .list items => items
  | .map entries => entries.map Prod.snd
  | .inline _ _ fields => fields.map Prod.snd
  | _ => []

/-- The parts of a sheet are itself and those of its children. -/
theorem parts_eq (u : Sheet) : u.parts = u :: u.children.flatMap parts := by
  cases u with
  | list items => rw [parts, partsOfItems_eq]; rfl
  | map entries => rw [parts, partsOfEntries_eq]; rfl
  | inline id identifier? fields => rw [parts, partsOfEntries_eq]; rfl
  | scalar s => rw [parts]; rfl
  | reference id r => rw [parts]; rfl

/-- What is looked for among the parts is found in the sheet itself and in its children. -/
theorem filterMap_parts {α : Type} (f : Sheet → Option α) (u : Sheet) :
    u.parts.filterMap f
      = (f u).toList ++ u.children.flatMap fun w => w.parts.filterMap f := by
  rw [parts_eq, List.filterMap_cons, List.filterMap_flatMap]
  cases f u <;> rfl

/-- The node and the identifier of an object that has one. -/
def identified? : Sheet → Option (NodeId × String)
  | .inline id identifier? _ => identifier?.map fun r => (id, r)
  | _ => none

/-- The node and the identifier of a reference. -/
def reference? : Sheet → Option (NodeId × String)
  | .reference id r => some (id, r)
  | _ => none

/-- The objects that have an identifier, each as its node and the identifier. -/
def identified (u : Sheet) : List (NodeId × String) := u.parts.filterMap identified?

/-- The references, each as its node and the identifier. -/
def references (u : Sheet) : List (NodeId × String) := u.parts.filterMap reference?

theorem identified_eq (u : Sheet) :
    u.identified = u.identified?.toList ++ u.children.flatMap identified :=
  filterMap_parts identified? u

/-! ### Showing values -/

/-- The sheets `us` show the values `vs`, one by one.  Of the entries of a map, under the texts of
their keys, those stand on its sheet that `kept` leaves. -/
inductive Shows (kept : List (String × Sheet) → List (String × Sheet)) (g : Graph)
    (rules : Rules) : List Value → List Sheet → Prop
  /-- There is nothing to be shown. -/
  | nil : Shows kept g rules [] []
  /-- A scalar is shown as it is. -/
  | scalar {s : Scalar} {vs us} (rest : Shows kept g rules vs us) :
    Shows kept g rules (.scalar s :: vs) (.scalar s :: us)
  /-- A list or a tuple is shown item by item. -/
  | sequence {v items ps vs us} (hv : v.items? = some items) (parts : Shows kept g rules items ps)
    (rest : Shows kept g rules vs us) : Shows kept g rules (v :: vs) (.list ps :: us)
  /-- A map is shown entry by entry. -/
  | map {es ps vs us} (parts : Shows kept g rules (es.map Prod.snd) ps)
    (rest : Shows kept g rules vs us) : Shows kept g rules (.dict es :: vs)
      (.map (kept ((es.map fun e => e.1.display).zip ps)) :: us)
  /-- A node is shown with its selected fields. -/
  | inline {id identifier? ps vs us}
    (parts : Shows kept g rules
      ((rules.projection (g.node id).schema).map (g.node id).get) ps)
    (rest : Shows kept g rules vs us) : Shows kept g rules (.node id :: vs)
      (.inline id identifier? ((rules.projection (g.node id).schema).zip ps) :: us)
  /-- A node may be shown elsewhere. -/
  | reference {id r vs us} (rest : Shows kept g rules vs us) :
    Shows kept g rules (.node id :: vs) (.reference id r :: us)

namespace Shows

variable {kept : List (String × Sheet) → List (String × Sheet)} {g : Graph} {rules : Rules}
  {vs : List Value} {us : List Sheet}

/-- Every value has one sheet. -/
theorem length_eq (h : Shows kept g rules vs us) : us.length = vs.length := by
  induction h with
  | nil => rfl
  | scalar _ ih => simp [ih]
  | sequence _ _ _ _ ih => simp [ih]
  | map _ _ _ ih => simp [ih]
  | inline _ _ _ ih => simp [ih]
  | reference _ ih => simp [ih]

end Shows

end Sheet

end Encoding

end DeclGraph
