import DeclGraph.Entries
import DeclGraph.Number.Layout
import DeclGraph.Text.Quoted

/-!
# Field values

The values that the fields of a node hold.  Usually a field holds what its name promises, but any
value may stand in any field, so values are data: scalars, lists, tuples, maps, references to
nodes, and foreign values of which only the name of their type is known.
-/

namespace DeclGraph

/-- The place of a node in its graph, which is the identity of the node. -/
abbrev NodeId := Nat

/-- A value without parts. -/
inductive Scalar
  | null
  | bool (b : Bool)
  | int (n : Int)
  | float (x : Binary64)
  | text (s : String)
deriving DecidableEq, Repr, Inhabited

/-- A field value. -/
inductive Value
  /-- A value without parts. -/
  | scalar (s : Scalar)
  /-- A list. -/
  | list (items : List Value)
  /-- A list that cannot be changed. -/
  | tuple (items : List Value)
  /-- A map from scalars, in insertion order. -/
  | dict (entries : List (Scalar × Value))
  /-- A reference to a node. -/
  | node (id : NodeId)
  /-- A value of a type that has no form here. -/
  | foreign (typeName : String)
deriving Repr, Inhabited

namespace Scalar

/-- The text of a scalar. -/
def display : Scalar → String
  | .null => "None"
  | .bool b => if b then "True" else "False"
  | .int n => Number.ofInt n
  | .float x => Number.Layout.display.render x
  | .text s => s

/-- A scalar as it is shown among other values. -/
def shown : Scalar → String
  | .text s => quoted s
  | s => s.display

/-- The name of the type of a scalar. -/
def typeName : Scalar → String
  | .null => "NoneType"
  | .bool _ => "bool"
  | .int _ => "int"
  | .float _ => "float"
  | .text _ => "str"

/-- Whether a scalar counts as true. -/
def isTrue : Scalar → Bool
  | .null => false
  | .bool b => b
  | .int n => n != 0
  | .float x => !x.isZero
  | .text s => !s.isEmpty

/-- The number that a scalar is as a key; truth values count as one and zero. -/
def asInt? : Scalar → Option Int
  | .bool b => some (if b then 1 else 0)
  | .int n => some n
  | .float x => x.toInt?
  | _ => none

/-- Whether two scalars are one key: numbers are compared by value. -/
def sameKey (a b : Scalar) : Bool :=
  match a.asInt?, b.asInt? with
  | some m, some n => m == n
  | none, none =>
    match a, b with
    | .float x, .float y => x.eq y
    | .float _, _ => false
    | _, .float _ => false
    | a, b => a == b
  | _, _ => false

/-- Whether a map has a key. -/
def hasKey {α : Type} (k : Scalar) (m : List (Scalar × α)) : Bool := m.any fun e => e.1.sameKey k

/-- Gives a key of a map a value: in place if the key is there, at the end otherwise. -/
def put {α : Type} (k : Scalar) (v : α) : List (Scalar × α) → List (Scalar × α)
  | [] => [(k, v)]
  | (k', v') :: rest => if k'.sameKey k then (k', v) :: rest else (k', v') :: put k v rest

end Scalar

namespace Value

/-- Nothing. -/
def null : Value := .scalar .null

/-- A truth value. -/
def bool (b : Bool) : Value := .scalar (.bool b)

/-- A whole number. -/
def int (n : Int) : Value := .scalar (.int n)

/-- A text. -/
def text (s : String) : Value := .scalar (.text s)

/-- A text or nothing. -/
def text? : Option String → Value
  | some s => .text s
  | none => .null

/-- A reference or nothing. -/
def node? : Option NodeId → Value
  | some id => .node id
  | none => .null

/-- A list of references. -/
def nodes (ids : List NodeId) : Value := .list (ids.map .node)

/-- The items of a list or a tuple. -/
def items? : Value → Option (List Value)
  | .list items => some items
  | .tuple items => some items
  | _ => none

/-- Whether a value counts as true. -/
def isTrue : Value → Bool
  | .scalar s => s.isTrue
  | .list items => !items.isEmpty
  | .tuple items => !items.isEmpty
  | .dict entries => !entries.isEmpty
  | .node _ => true
  | .foreign _ => true

/-- The map that entries build one after another. -/
def dictOfEntries (entries : List (Scalar × Value)) : Value :=
  .dict (entries.foldl (fun m (k, v) => Scalar.put k v m) [])

mutual

/-- The number of places in a value: itself and those in its parts. -/
def size : Value → Nat
  | .list items => 1 + sizeItems items
  | .tuple items => 1 + sizeItems items
  | .dict entries => 1 + sizeEntries entries
  | _ => 1

/-- The number of places in the items of a list. -/
def sizeItems : List Value → Nat
  | [] => 0
  | v :: rest => size v + sizeItems rest

/-- The number of places in the values of a map. -/
def sizeEntries : List (Scalar × Value) → Nat
  | [] => 0
  | (_, v) :: rest => size v + sizeEntries rest

end

end Value

end DeclGraph
