import DeclGraph.Entries
import DeclGraph.Number.Binary64

/-!
# JSON values

The values of a JSON document.  Whole numbers and numbers with a point or an exponent are told
apart, and the entries of an object keep their order.
-/

namespace DeclGraph

/-- A JSON value. -/
inductive Json
  | null
  | bool (b : Bool)
  | int (n : Int)
  | float (x : Binary64)
  | string (s : String)
  | array (items : List Json)
  | object (entries : List (String × Json))
deriving Repr, Inhabited

namespace Json

/-- The value under a key of an object. -/
def get? (key : String) : Json → Option Json
  | .object entries => Entries.get? key entries
  | _ => none

/-- The text that a string is. -/
def string? : Json → Option String
  | .string s => some s
  | _ => none

/-- The texts of an array of strings. -/
def strings? : Json → Option (List String)
  | .array items => items.mapM string?
  | _ => none

/-- Whether a value counts as absent where a default is taken: `null`, `false`, zero and
everything empty. -/
def isFalsy : Json → Bool
  | .null => true
  | .bool b => !b
  | .int n => n == 0
  | .float x => x.isZero
  | .string s => s.isEmpty
  | .array items => items.isEmpty
  | .object entries => entries.isEmpty

end Json

end DeclGraph
