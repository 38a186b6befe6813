import DeclGraph.Projection.Rules

/-!
# Counting references

Before a graph is written, every value that can be reached from the root is visited through the
fields that the rules select, and the visits of each node are counted.  The fields of a node are
followed on its first visit alone, so the walk ends in any graph: it takes as many steps as there
are places in the root and in the fields of the nodes.  A node visited more than once is shared.
-/

namespace DeclGraph

namespace Encoding

/-- The values that come next when a value is visited: the parts of a list, a tuple or a map.  A
node has its fields followed elsewhere. -/
def parts : Value → List Value
  | .list items => items
  | .tuple items => items
  | .dict entries => entries.map Prod.snd
  | _ => []

/-- The values in the selected fields of a node. -/
def selected (rules : Rules) (n : Node) : Except RulesError (List Value) :=
  (rules.fieldsFor n.schema).map fun names => names.map n.get

/-- Visits the values on a stack, the last part of a value first; `visits` holds the nodes visited
so far, the latest first. -/
def visitLoop (g : Graph) (rules : Rules) :
    Nat → List Value → List NodeId → Except RulesError (List NodeId)
  | 0, _, visits => .ok visits
  | _ + 1, [], visits => .ok visits
  | fuel + 1, .node id :: stack, visits =>
    if visits.contains id then visitLoop g rules fuel stack (id :: visits)
    else
      match selected rules (g.node id) with
      | .error e => .error e
      | .ok values => visitLoop g rules fuel (values.reverse ++ stack) (id :: visits)
  | fuel + 1, v :: stack, visits => visitLoop g rules fuel ((parts v).reverse ++ stack) visits

/-- The number of steps that a walk from a value takes at most. -/
def steps (g : Graph) (root : Value) : Nat := 1 + root.size + g.places

/-- The nodes visited from a root, once for every visit. -/
def visits (g : Graph) (rules : Rules) (root : Value) : Except RulesError (List NodeId) :=
  visitLoop g rules (steps g root) [root] []

/-- Whether a node was visited more than once. -/
def isShared (visits : List NodeId) (id : NodeId) : Bool := 1 < visits.count id

end Encoding

end DeclGraph
