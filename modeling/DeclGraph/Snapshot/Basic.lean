import DeclGraph.Snapshot.FunctionMap

/-!
# Snapshots

A snapshot holds what is written of a compilation: its top-level declarations and its function map.
`Graph.snapshot` adds the snapshot of a compilation to its graph.
-/

namespace DeclGraph

/-- A snapshot in its graph. -/
structure Snapshot where
  /-- The graph with the node of the snapshot. -/
  graph : Graph
  /-- The node of the snapshot. -/
  root : Value
  /-- Its function map. -/
  functionMap : FunctionMap

namespace Graph

/-- The top-level functions of a compilation, and the collections that its snapshot holds. -/
def topLevel (g : Graph) (compilation : Value) :
    Except TextError (List Value × List (String × Value)) := do
  let collection (name : String) : Except TextError (List Value) := do
    g.itemsOf (← g.member compilation name)
  let functions ← collection "functions"
  let attributes ← collection "attributes"
  let classes ← collection "classes"
  let enums ← collection "enums"
  let fields ← collection "fields"
  let typedefs ← collection "typedefs"
  let macros ← collection "macros"
  let namespaces ← collection "namespaces"
  return (functions, [("attributes", .tuple attributes), ("classes", .tuple classes),
    ("enums", .tuple enums), ("fields", .tuple fields), ("functions", .tuple functions),
    ("typedefs", .tuple typedefs), ("macros", .tuple macros), ("namespaces", .tuple namespaces)])

/-- The snapshot of a compilation.  It refers to the declarations and copies none. -/
def snapshot (g : Graph) (compilation : Value) : Except TextError Snapshot := do
  let (functions, collections) ← g.topLevel compilation
  let functionMap ← FunctionMap.ofFunctions g functions
  let node := Node.make .snapshot (collections ++ [("function_map",
    .dict (functionMap.entries.map fun (name, nodes) => (name, Value.tuple nodes)))])
  return ⟨g.add node, .node g.size, functionMap⟩

/-- What taking a snapshot tells, also where it comes to nothing. -/
def snapshotLog (g : Graph) (compilation : Value) : List LogLine :=
  match g.topLevel compilation with
  | .ok (functions, _) => FunctionMap.logOf g functions
  | .error _ => []

end Graph

end DeclGraph
