import DeclGraph.Graph.Text

/-!
# Reports

The report of a compilation lists its diagnostics, the errors alone or all of them, and on request
how its enumerations, functions, records and defined types read in C.
-/

namespace DeclGraph

namespace Graph

/-- Whether a diagnostic is an error. -/
def isError (g : Graph) (diagnostic : Value) : Except TextError Bool := do
  match ← g.member diagnostic "severity" with
  | .scalar (.text s) => return s == "error"
  | _ => return false

/-- Whether one of the diagnostics is an error. -/
def anyError (g : Graph) : List Value → Except TextError Bool
  | [] => .ok false
  | d :: rest => do if ← g.isError d then return true else anyError g rest

/-- Whether a compilation has errors. -/
def hasErrors (g : Graph) (compilation : Value) : Except TextError Bool := do
  anyError g (← g.itemsOf (← g.member compilation "diagnostics"))

/-- The lines for diagnostics: for all of them, or for the errors. -/
def diagnosticLines (g : Graph) (all : Bool) : List Value → Except TextError (List String)
  | [] => .ok []
  | d :: rest => do
    let line ← if all then (some <$> g.display d) else do
      if ← g.isError d then (some <$> g.display d) else pure none
    return line.toList ++ (← diagnosticLines g all rest)

/-- The lines of the report of a compilation. -/
def describe (g : Graph) (compilation : Value) (warnings info : Bool) :
    Except TextError (List String) := do
  let listing (name : String) : Except TextError (List String) := do
    (← g.itemsOf (← g.member compilation name)).mapM g.display
  let diagnostics ← diagnosticLines g warnings
    (← g.itemsOf (← g.member compilation "diagnostics"))
  if info then
    let enums ← listing "enums"
    let functions ← listing "functions"
    let classes ← listing "classes"
    let typedefs ← listing "typedefs"
    return diagnostics ++ enums ++ functions ++ classes ++ typedefs
  else return diagnostics

end Graph

end DeclGraph
