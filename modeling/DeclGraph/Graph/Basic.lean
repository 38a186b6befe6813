import DeclGraph.Graph.Kind

/-!
# Declaration graphs

A `Node` has a shape and its fields in order; a `Graph` is the nodes, each known by its place.
References between nodes are values, so nodes may be shared and may refer to each other in circles.
`Node.make` builds a node of a kind from the fields that are given, and `Graph.add` puts a node at
the end of a graph, where nothing refers to it yet.
-/

namespace DeclGraph

/-- What a node is: of one of the kinds, or of a made-up type. -/
inductive Shape
  /-- A node of a kind. -/
  | declared (kind : Kind)
  /-- A node of a made-up type, with the kind that rules know it by, if it has one. -/
  | custom (label : String) (kindName? : Option String)
deriving DecidableEq, Repr

namespace Shape

/-- The name of the type. -/
def label : Shape → String
  | .declared kind => kind.label
  | .custom label _ => label

/-- The name that rules know the type by. -/
def kindName : Shape → String
  | .declared kind => kind.name
  | .custom label kindName? => kindName?.getD label

end Shape

/-- A node of a graph. -/
structure Node where
  /-- What the node is. -/
  shape : Shape
  /-- The fields in order. -/
  fields : List (String × Value)
deriving Repr

namespace Node

/-- The node that stands where there is none. -/
def absent : Node := ⟨.custom "object" none, []⟩

instance : Inhabited Node := ⟨absent⟩

/-- The node of a kind with the given fields, and the usual values in the others. -/
def make (kind : Kind) (given : List (String × Value)) : Node :=
  ⟨.declared kind, kind.fields.map fun (name, usual) =>
    (name, (Entries.get? name given).getD usual)⟩

/-- The names of the fields. -/
def fieldNames (n : Node) : List String := n.fields.map Prod.fst

/-- The value of a field, where the node has the field. -/
def get? (n : Node) (name : String) : Option Value := Entries.get? name n.fields

/-- The value of a field; a field that is not there counts as empty. -/
def get (n : Node) (name : String) : Value := (n.get? name).getD .null

/-- The node with another value in a field it has. -/
def set (n : Node) (name : String) (v : Value) : Node :=
  { n with fields := n.fields.map fun (k, old) => (k, if k = name then v else old) }

/-- Whether the node is of a kind. -/
def isKind (n : Node) (kind : Kind) : Bool := n.shape == .declared kind

/-- The kind of the node, where it has one. -/
def kind? (n : Node) : Option Kind :=
  match n.shape with
  | .declared kind => some kind
  | .custom .. => none

/-- A node built of a kind has the fields of the kind. -/
theorem fieldNames_make (kind : Kind) (given : List (String × Value)) :
    (make kind given).fieldNames = kind.fieldNames := by
  simp [make, fieldNames, Kind.fieldNames, Function.comp_def]

/-- Setting a field keeps the names of the fields. -/
theorem fieldNames_set (n : Node) (name : String) (v : Value) :
    (n.set name v).fieldNames = n.fieldNames := by
  simp [set, fieldNames, Function.comp_def]

end Node

/-- A graph: its nodes, each known by its place. -/
structure Graph where
  /-- The nodes. -/
  nodes : Array Node

namespace Graph

/-- The graph without nodes. -/
def empty : Graph := ⟨#[]⟩

instance : Inhabited Graph := ⟨empty⟩

/-- The number of nodes. -/
def size (g : Graph) : Nat := g.nodes.size

/-- The node at a place. -/
def node (g : Graph) (id : NodeId) : Node := g.nodes.getD id .absent

/-- The graph with one more node; its place is the old size. -/
def add (g : Graph) (n : Node) : Graph := ⟨g.nodes.push n⟩

/-- The graph with a node changed. -/
def modify (g : Graph) (id : NodeId) (f : Node → Node) : Graph := ⟨g.nodes.modify id f⟩

/-- The graph with another value in a field of a node. -/
def setField (g : Graph) (id : NodeId) (name : String) (v : Value) : Graph :=
  g.modify id (·.set name v)

/-- The node at the place where a node was added. -/
theorem node_add_size (g : Graph) (n : Node) : (g.add n).node g.size = n := by
  simp [node, add, size, Array.getD]

/-- Adding a node leaves the others as they are. -/
theorem node_add_of_lt (g : Graph) (n : Node) {id : NodeId} (h : id < g.size) :
    (g.add n).node id = g.node id := by
  have h' : id < g.nodes.size := h
  simp [node, add, Array.getD, h', Nat.lt_succ_of_lt h', Array.getElem_push_lt]

/-- The name of the type of a value. -/
def typeName (g : Graph) : Value → String
  | .scalar s => s.typeName
  | .list _ => "list"
  | .tuple _ => "tuple"
  | .dict _ => "dict"
  | .node id => (g.node id).shape.label
  | .foreign typeName => typeName

/-- The number of places in all the fields of the nodes. -/
def places (g : Graph) : Nat :=
  let inFields (n : Node) : Nat := (n.fields.map fun (_, v) => v.size).foldr (· + ·) 0
  (g.nodes.toList.map inFields).foldr (· + ·) 0

end Graph

end DeclGraph
