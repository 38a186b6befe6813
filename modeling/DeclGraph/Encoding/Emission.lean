import DeclGraph.Encoding.References
import DeclGraph.Json.Basic
import DeclGraph.Number.Layout

/-!
# Writing a graph as a tree

A graph becomes a JSON value depth first.  A shared node is written with an identifier where it is
first met, and as a reference to that identifier wherever it is met again; the identifiers are
numbered as they are given.  The value is built from cells: a list or an object is drawn up with an
empty cell for each part, and the parts are put on a stack with the cells they will fill.  In the
end `Draft.read` reads the cells together.
-/

namespace DeclGraph

namespace Encoding

/-- Why a graph cannot be written. -/
inductive EncodeError
  /-- The rules do not fit a type. -/
  | rules (e : RulesError)
  /-- A value has no JSON form. -/
  | unencodable (typeName : String)
deriving DecidableEq, Repr

/-- The words for an error. -/
def EncodeError.message : EncodeError → String
  | .rules e => e.message
  | .unencodable typeName => "Cannot encode value of type " ++ typeName ++ "."

/-- The key of an identifier. -/
def idKey : String := "$id"

/-- The key of a reference. -/
def refKey : String := "$ref"

/-- The place of a part of the value that is being built. -/
abbrev CellId := Nat

/-- What a cell holds. -/
inductive Draft
  /-- Nothing yet. -/
  | pending
  /-- A finished value. -/
  | leaf (v : Json)
  /-- An array of cells. -/
  | array (cells : List CellId)
  /-- An object of cells. -/
  | object (entries : List (String × CellId))
deriving Repr

namespace Draft

/-- Reads the value of a cell; `fuel` bounds the depth. -/
def readWithin (cells : Array Draft) : Nat → CellId → Json
  | 0, _ => .null
  | fuel + 1, cell =>
    match cells.getD cell .pending with
    | .pending => .null
    | .leaf v => v
    | .array items => .array (items.map (readWithin cells fuel))
    | .object entries => .object (entries.map fun (k, c) => (k, readWithin cells fuel c))

/-- Reads the value of the first cell.  The parts of a cell stand behind it, so no value is deeper
than there are cells. -/
def read (cells : Array Draft) : Json := readWithin cells cells.size 0

end Draft

/-- The state of writing: the cells, the nodes that have an identifier in the order in which they
got it, and the values still to be written with the cells they fill. -/
structure Emission where
  /-- The cells. -/
  cells : Array Draft
  /-- The nodes that have an identifier. -/
  named : List NodeId
  /-- The values to be written, the next one first. -/
  stack : List (Value × CellId)

namespace Emission

/-- The start: one empty cell for the root. -/
def start (root : Value) : Emission := ⟨#[.pending], [], [(root, 0)]⟩

/-- The identifier of the node that got the `n`-th one, from zero. -/
def identifier (n : Nat) : String := Number.digits (n + 1)

/-- The identifier of a node, if it has one. -/
def identifier? (named : List NodeId) (id : NodeId) : Option String :=
  (named.idxOf? id).map identifier

/-- The keys in order, each once, with cells from `next` on. -/
def slots (next : CellId) (keys : List String) : List (String × CellId) :=
  keys.eraseDups.zipIdx next

/-- The state with an array in a cell, its items to be written next. -/
def openArray (e : Emission) (cell : CellId) (items : List Value) : Emission :=
  let cells := List.range' e.cells.size items.length
  { e with
    cells := (e.cells.setIfInBounds cell (.array cells)) ++ Array.replicate items.length .pending
    stack := items.zip cells ++ e.stack }

/-- The state with an object in a cell, its values to be written next.  Of values with one key the
last stays. -/
def openObject (e : Emission) (cell : CellId) (leading : List (String × Json))
    (entries : List (String × Value)) : Emission :=
  let slots := slots e.cells.size (leading.map Prod.fst ++ entries.map Prod.fst)
  let slot (key : String) : CellId := (Entries.get? key slots).getD 0
  let cells := (e.cells.setIfInBounds cell (.object slots)) ++ Array.replicate slots.length .pending
  { e with
    cells := leading.foldl (fun cells (key, v) => cells.setIfInBounds (slot key) (.leaf v)) cells
    stack := entries.map (fun (key, v) => (v, slot key)) ++ e.stack }

/-- The state with a finished value in a cell. -/
def fill (e : Emission) (cell : CellId) (v : Json) : Emission :=
  { e with cells := e.cells.setIfInBounds cell (.leaf v) }

/-- The JSON form of a scalar. -/
def scalarJson : Scalar → Json
  | .null => .null
  | .bool b => .bool b
  | .int n => .int n
  | .float x => .float x
  | .text s => .string s

/-- Writes a value into a cell. -/
def write (g : Graph) (rules : Rules) (shared : NodeId → Bool) (e : Emission) (v : Value)
    (cell : CellId) : Except EncodeError Emission :=
  match v with
  | .scalar s => .ok (e.fill cell (scalarJson s))
  | .list items => .ok (e.openArray cell items)
  | .tuple items => .ok (e.openArray cell items)
  | .dict entries => .ok (e.openObject cell [] (entries.map fun (k, v) => (k.display, v)))
  | .foreign typeName => .error (.unencodable typeName)
  | .node id =>
    match identifier? e.named id with
    | some ref => .ok (e.fill cell (.object [(refKey, .string ref)]))
    | none =>
      let n := g.node id
      match rules.fieldsFor n.schema with
      | .error err => .error (.rules err)
      | .ok names =>
        let entries := names.map fun name => (name, n.get name)
        if shared id then
          let leading := [(idKey, Json.string (identifier e.named.length))]
          .ok ({ e with named := e.named ++ [id] }.openObject cell leading entries)
        else .ok (e.openObject cell [] entries)

/-- Writes the values on the stack. -/
def run (g : Graph) (rules : Rules) (shared : NodeId → Bool) :
    Nat → Emission → Except EncodeError Emission
  | 0, e => .ok e
  | fuel + 1, e =>
    match e.stack with
    | [] => .ok e
    | (v, cell) :: stack =>
      match write g rules shared { e with stack } v cell with
      | .ok e => run g rules shared fuel e
      | .error err => .error err

end Emission

end Encoding

end DeclGraph
