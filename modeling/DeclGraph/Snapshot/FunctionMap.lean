import DeclGraph.Graph.Text
import DeclGraph.Log

/-!
# Function maps

A function map gives the name of every function with a body the nodes of the body, parameters
apart.  Of functions with one name the last body stays, at the place of the first; functions
without a name or without a body are left out.
-/

namespace DeclGraph

/-- A function map, and the names that came more than once. -/
structure FunctionMap where
  /-- The names in the order in which they first came, and the last body of each. -/
  entries : List (Scalar × List Value)
  /-- The names that replaced an earlier body, in order. -/
  repeated : List Scalar
deriving Repr

namespace FunctionMap

/-- The map of nothing. -/
def empty : FunctionMap := ⟨[], []⟩

/-- The map with one more body. -/
def add (m : FunctionMap) (name : Scalar) (body : List Value) : FunctionMap :=
  ⟨Scalar.put name body m.entries,
    if Scalar.hasKey name m.entries then m.repeated ++ [name] else m.repeated⟩

/-- The map of named bodies, one after another. -/
def ofBodies (bodies : List (Scalar × List Value)) : FunctionMap :=
  bodies.foldl (fun m (name, body) => m.add name body) empty

/-- The parameters of a function, followed by the statements of its body. -/
def children (g : Graph) (function : Value) : Except TextError (List Value) :=
  match function with
  | .node id =>
    let n := g.node id
    if n.isKind .function then do
      let parameters ← g.itemsOf (n.get "parameters")
      let statements ← g.itemsOf (n.get "statements")
      return parameters ++ statements
    else match n.get? "children" with
      | some v => .error (.notCallable (g.typeName v))
      | none => .error (.lacks n.shape.label "children")
  | v => .error (.lacks (g.typeName v) "children")

/-- Whether a value refers to a parameter. -/
def isParameter (g : Graph) : Value → Bool
  | .node id => (g.node id).isKind .parameter
  | _ => false

/-- The name and the body of a function, where it has both. -/
def body? (g : Graph) (function : Value) : Except TextError (Option (Scalar × List Value)) := do
  let nodes := (← children g function).filter fun v => !isParameter g v
  let name ← g.member function "name"
  if !name.isTrue || nodes.isEmpty then return none
  else match name with
    | .scalar s => return some (s, nodes)
    | v => throw (.notHashable (g.typeName v))

/-- The bodies of functions, in order. -/
def bodies (g : Graph) : List Value → Except TextError (List (Scalar × List Value))
  | [] => .ok []
  | function :: rest => do
    let body ← body? g function
    let rest ← bodies g rest
    return body.toList ++ rest

/-- The bodies of the functions in front of the first one that is none. -/
def readableBodies (g : Graph) : List Value → List (Scalar × List Value)
  | [] => []
  | function :: rest =>
    match body? g function with
    | .ok body => body.toList ++ readableBodies g rest
    | .error _ => []

/-- The map of functions. -/
def ofFunctions (g : Graph) (functions : List Value) : Except TextError FunctionMap :=
  (bodies g functions).map ofBodies

/-- What building a map tells: a line for every body that replaces another. -/
def log (m : FunctionMap) : List LogLine :=
  m.repeated.map fun name =>
    .warning ("Duplicate function name replaces earlier body (name=" ++ name.display ++ ")")

/-- What building the map of functions tells, also where it comes to nothing. -/
def logOf (g : Graph) (functions : List Value) : List LogLine :=
  (ofBodies (readableBodies g functions)).log

/-- Where a map comes of functions, all of them have been read. -/
theorem readableBodies_of_bodies {g : Graph} {functions : List Value}
    {found : List (Scalar × List Value)} (h : bodies g functions = .ok found) :
    readableBodies g functions = found := by
  induction functions generalizing found with
  | nil => simp_all [bodies, readableBodies]
  | cons f rest ih =>
    cases hf : body? g f with
    | error e => simp [bodies, hf, bind, Except.bind] at h
    | ok body =>
      cases hr : bodies g rest with
      | error e => simp [bodies, hf, hr, bind, Except.bind] at h
      | ok others =>
        simp only [bodies, hf, hr, bind, Except.bind, pure, Except.pure, Except.ok.injEq] at h
        simp [readableBodies, hf, ih hr, h]

end FunctionMap

end DeclGraph
