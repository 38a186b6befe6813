import DeclGraph.Encoding.Emission
import DeclGraph.Json.Stream
import DeclGraph.Log

/-!
# Encoding

`Graph.encode` writes what can be reached from a value as a JSON value, with every node once and
references to the nodes that are shared; `Graph.dump` gives its text.  A fault of the rules is told
before anything is written, and before a value that has no JSON form.
-/

namespace DeclGraph

open Encoding

/-- What encoding tells when it fails: a line for a value that has no JSON form. -/
def Encoding.EncodeError.log : EncodeError → List LogLine
  | .rules _ => []
  | .unencodable typeName => [.warning ("Cannot encode value (type=" ++ typeName ++ ")")]

namespace Graph

/-- The JSON value of what can be reached from `root` through the selected fields. -/
def encode (g : Graph) (rules : Rules) (root : Value) : Except EncodeError Json :=
  match visits g rules root with
  | .error e => .error (.rules e)
  | .ok visits =>
    (Emission.run g rules (isShared visits) (steps g root) (.start root)).map fun e =>
      Draft.read e.cells

/-- The text of what can be reached from `root` through the selected fields. -/
def dump (g : Graph) (rules : Rules) (root : Value) : Except EncodeError String :=
  (g.encode rules root).map Json.write

end Graph

end DeclGraph
