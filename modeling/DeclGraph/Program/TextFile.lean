import DeclGraph.Failure
import DeclGraph.Program.Basic

/-!
# Text files

Files are read as text strictly, with every line end turned into a line feed, and written with the
directories above them.
-/

namespace DeclGraph

namespace TextFile

/-- The text that octets are, with line feeds for line ends. -/
def ofOctets (octets : List UInt8) : Except Failure String :=
  match Utf8.decode octets with
  | .ok text => .ok (String.ofList (universalNewlines text.toList))
  | .error e => .error (.notText e)

/-- Reads a text file. -/
def read (path : Path) : Program (Except Failure String) := do
  match ← Program.request (.read path) with
  | .ok octets => return ofOctets octets
  | .error e => return .error (.file e)

/-- Writes a text file, with the directories above it where they are missing. -/
def write (path : Path) (text : String) : Program (Except Failure Unit) := do
  match ← Program.request (.makeDirectories path.parent) with
  | .error e => return .error (.file e)
  | .ok () =>
    match ← Program.request (.write path (Utf8.encode text)) with
    | .error e => return .error (.file e)
    | .ok () => return .ok ()

end TextFile

end DeclGraph
