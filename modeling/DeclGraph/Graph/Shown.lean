import DeclGraph.Graph.Basic

/-!
# Values as they are shown

`Graph.shown` shows a value for those who want to see what it is: texts between quotation marks,
lists and maps with their parts, nodes by their type.  Most nodes show only their name, so a circle
of references does no harm; places, diagnostics, snapshots and made-up nodes show all their fields,
and one that is met again inside itself is three points.
-/

namespace DeclGraph

namespace Graph

/-- Whether a node shows all its fields. -/
def showsFields (n : Node) : Bool :=
  match n.kind? with
  | some kind => (kind matches .location | .span | .diagnostic | .snapshot)
  | none => true

/-- Shows a value inside the nodes in `active`; `fuel` bounds the depth. -/
def shownWithin (g : Graph) : Nat → List NodeId → Value → String
  | 0, _, _ => "..."
  | fuel + 1, active, v =>
    let parts (vs : List Value) := ", ".intercalate (vs.map (shownWithin g fuel active))
    match v with
    | .scalar s => s.shown
    | .list items => "[" ++ parts items ++ "]"
    | .tuple [item] => "(" ++ shownWithin g fuel active item ++ ",)"
    | .tuple items => "(" ++ parts items ++ ")"
    | .dict entries =>
      "\x7b" ++ ", ".intercalate (entries.map fun (k, w) =>
        k.shown ++ ": " ++ shownWithin g fuel active w) ++ "\x7d"
    | .foreign typeName => "<" ++ typeName ++ ">"
    | .node id =>
      let n := g.node id
      if showsFields n then
        if active.contains id then "..."
        else
          n.shape.label ++ "(" ++ ", ".intercalate (n.fields.map fun (name, w) =>
            name ++ "=" ++ shownWithin g fuel (id :: active) w) ++ ")"
      else
        match n.get "name" with
        | .scalar .null => n.shape.label ++ "()"
        | name => n.shape.label ++ "(name=" ++ shownWithin g fuel active name ++ ")"

/-- Shows a value. -/
def shown (g : Graph) (v : Value) : String :=
  shownWithin g (g.places + g.size + v.size + 1) [] v

end Graph

end DeclGraph
