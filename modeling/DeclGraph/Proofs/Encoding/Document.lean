import DeclGraph.Proofs.Encoding.Reachability
import DeclGraph.Proofs.Encoding.Written

/-!
# Graphs read from documents

A document is read as a rooted graph: every object without the key of a reference is a node, known
by its position, and a reference is an edge to the first object with the identifier that it names
(`Json.graph`).  A graph with a root is seen in the same way (`Graph.rooted`): its nodes, and its
maps at each of their occurrences, with the selected fields in order.  `Rooted.IsIsomorphism` says
when two such graphs are one but for the names of their nodes.
-/

namespace DeclGraph

open Encoding

/-! ### Rooted graphs -/

/-- What stands in a field of a rooted graph with the nodes `ν`. -/
inductive View (ν : Type) : Type
  /-- A scalar. -/
  | scalar (c : Scalar)
  /-- A list, which belongs to its place. -/
  | list (items : List (View ν))
  /-- An edge to a node. -/
  | node (n : ν)
  /-- A value of which only the type is known. -/
  | foreign (typeName : String)

namespace View

variable {ν μ : Type}

mutual

/-- The view with other names for the nodes. -/
def map (f : ν → μ) : View ν → View μ
  | .scalar c => .scalar c
  | .list items => .list (mapItems f items)
  | .node n => .node (f n)
  | .foreign t => .foreign t

/-- The views with other names for the nodes. -/
def mapItems (f : ν → μ) : List (View ν) → List (View μ)
  | [] => []
  | v :: rest => v.map f :: mapItems f rest

end

mutual

/-- The nodes that a view has edges to. -/
def nodes : View ν → List ν
  | .list items => nodesOfItems items
  | .node n => [n]
  | _ => []

/-- The nodes that views have edges to. -/
def nodesOfItems : List (View ν) → List ν
  | [] => []
  | v :: rest => v.nodes ++ nodesOfItems rest

end

end View

/-- A rooted graph: the view of its root, and the named fields of every node in order. -/
structure Rooted (ν : Type) where
  /-- What stands at the root. -/
  root : View ν
  /-- The fields of a node. -/
  fields : ν → List (String × View ν)

namespace Rooted

variable {ν μ : Type}

/-- A node can be reached from the root. -/
inductive Reaches (G : Rooted ν) : ν → Prop
  /-- The root has an edge to the node. -/
  | root {n : ν} (h : n ∈ G.root.nodes) : Reaches G n
  /-- A field of a reached node has an edge to the node. -/
  | field {m n : ν} {x : String × View ν} (reached : Reaches G m) (hx : x ∈ G.fields m)
    (h : n ∈ x.2.nodes) : Reaches G n

/-- `f` renames the nodes that are reached in `G` to those that are reached in `H`, one to one, and
what is renamed stands in the same fields in the same order. -/
structure IsIsomorphism (G : Rooted ν) (H : Rooted μ) (f : ν → μ) : Prop where
  /-- The roots are the same but for the names. -/
  root : H.root = G.root.map f
  /-- The fields are the same but for the names. -/
  fields : ∀ n, G.Reaches n → H.fields (f n) = (G.fields n).map fun x => (x.1, x.2.map f)
  /-- Different nodes have different names. -/
  injective : ∀ m n, G.Reaches m → G.Reaches n → f m = f n → m = n
  /-- Every node is named. -/
  surjective : ∀ p, H.Reaches p → ∃ n, G.Reaches n ∧ f n = p

end Rooted

/-! ### The graph of a root -/

namespace Value

mutual

/-- What a value is that stands at an address.  A map is a node of its own wherever it occurs. -/
def view (a : Address) : Value → View Spot
  | .scalar c => .scalar c
  | .list items => .list (views a 0 items)
  | .tuple items => .list (views a 0 items)
  | .dict _ => .node (.map a)
  | .node id => .node (.node id)
  | .foreign t => .foreign t

/-- What the items of a list at an address are, from the one with the number `i` on. -/
def views (a : Address) (i : Nat) : List Value → List (View Spot)
  | [] => []
  | v :: rest => v.view (a.part i) :: views a (i + 1) rest

end

/-- The part of a value that numbers lead to. -/
def at? (v : Value) : List Nat → Option Value
  | [] => some v
  | i :: path => ((parts v)[i]?).bind fun w => w.at? path

end Value

namespace Graph

/-- The value at an address. -/
def valueAt (g : Graph) (rules : Rules) (root : Value) (a : Address) : Option Value :=
  match a.start with
  | none => root.at? a.path
  | some (id, i) => ((selectedValues g rules id)[i]?).bind fun v => v.at? a.path

/-- The selected fields of a node, or the entries of a map. -/
def fieldsAt (g : Graph) (rules : Rules) (root : Value) : Spot → List (String × View Spot)
  | .node id =>
    match rules.fieldsFor (g.node id).schema with
    | .ok names => names.zipIdx.map fun x =>
      (x.1, ((g.node id).get x.1).view ⟨some (id, x.2), []⟩)
    | .error _ => []
  | .map a =>
    match g.valueAt rules root a with
    | some (.dict entries) => entries.zipIdx.map fun x => (x.1.1.display, x.1.2.view (a.part x.2))
    | _ => []

/-- The graph that can be seen from a root through selected fields. -/
def rooted (g : Graph) (rules : Rules) (root : Value) : Rooted Spot :=
  ⟨root.view ⟨none, []⟩, g.fieldsAt rules root⟩

end Graph

/-! ### The graph of a document -/

namespace Json

/-- The parts of a value in order. -/
def children : Json → List Json
  | .array items => items
  | .object entries => entries.map Prod.snd
  | _ => []

theorem sizeOf_lt_of_mem_children {w c : Json} (h : c ∈ w.children) : sizeOf c < sizeOf w := by
  cases w with
  | array items =>
    have := List.sizeOf_lt_of_mem (show c ∈ items from h)
    simp only [array.sizeOf_spec]; omega
  | object entries =>
    obtain ⟨⟨k, c'⟩, he, rfl⟩ := List.mem_map.1 h
    have := List.sizeOf_lt_of_mem he
    simp only [Prod.mk.sizeOf_spec] at this
    simp only [object.sizeOf_spec]; omega
  | null | bool | int | float | string => simp [children] at h

/-- The part of a value that stands at a position. -/
def at? (w : Json) : Position → Option Json
  | [] => some w
  | i :: p => (w.children[i]?).bind fun c => c.at? p

/-- The positions of `n` parts of what stands at `p`, from the one with the number `k` on. -/
def positions (p : Position) (k n : Nat) : List Position := (List.range' k n).map fun i => p ++ [i]

/-- All that stands in a value at the position `p`, with the positions, in the order of the text. -/
def parts (p : Position) (w : Json) : List (Position × Json) :=
  (p, w) :: ((positions p 0 w.children.length).zip w.children).attach.flatMap fun x =>
    x.1.2.parts x.1.1
termination_by sizeOf w
decreasing_by exact sizeOf_lt_of_mem_children (List.of_mem_zip x.2).2

/-- The identifier of a node, if it has one. -/
def identifier? : Json → Option String
  | .object entries =>
    match Entries.get? refKey entries, Entries.get? idKey entries with
    | none, some (.string r) => some r
    | _, _ => none
  | _ => none

/-- The identifier that a reference names. -/
def reference? : Json → Option String
  | .object entries =>
    match Entries.get? refKey entries with
    | some (.string r) => some r
    | _ => none
  | _ => none

/-- Whether a value is an object without the key of a reference. -/
def isNode : Json → Bool
  | .object entries => (Entries.get? refKey entries).isNone
  | _ => false

/-- The identifiers of nodes with their positions, in the order of the text. -/
def identified (j : Json) : List (String × Position) :=
  (j.parts []).filterMap fun x => x.2.identifier?.map fun r => (r, x.1)

/-- The position of the first node with an identifier. -/
def locate (j : Json) (r : String) : Position := (Entries.get? r j.identified).getD []

mutual

/-- What a value of a document is that stands at a position. -/
def view (locate : String → Position) (p : Position) : Json → View Position
  | .null => .scalar .null
  | .bool b => .scalar (.bool b)
  | .int n => .scalar (.int n)
  | .float x => .scalar (.float x)
  | .string s => .scalar (.text s)
  | .array items => .list (views locate p 0 items)
  | .object entries => .node (((reference? (.object entries)).map locate).getD p)

/-- What the items of an array at a position are, from the one with the number `i` on. -/
def views (locate : String → Position) (p : Position) (i : Nat) : List Json → List (View Position)
  | [] => []
  | w :: rest => w.view locate (p ++ [i]) :: views locate p (i + 1) rest

end

/-- The entries of an object that stands at a position, without its identifier. -/
def fieldsOf (locate : String → Position) (p : Position) (entries : List (String × Json)) :
    List (String × View Position) :=
  (entries.zipIdx.filter fun x => x.1.1 ≠ idKey).map fun x =>
    (x.1.1, x.1.2.view locate (p ++ [x.2]))

/-- The fields of the object at a position. -/
def fieldsAt (j : Json) (p : Position) : List (String × View Position) :=
  match j.at? p with
  | some (.object entries) => fieldsOf j.locate p entries
  | _ => []

/-- The graph that a document stands for. -/
def graph (j : Json) : Rooted Position := ⟨j.view j.locate [], j.fieldsAt⟩

end Json

end DeclGraph
