import DeclGraph.FrontEnd.Options
import DeclGraph.Graph.Basic

/-!
# Front ends

A front end turns a source file into a declaration graph.  It answers with the compilation, or with
a fault whose nature says how far others can go on; a `FrontEnd` also says how long a parse takes.
-/

namespace DeclGraph

/-- What a fault of a front end is about, as far as others care. -/
inductive Nature
  /-- The front end cannot do anything with the file. -/
  | refusal
  /-- The front end gave up waiting. -/
  | timeout
  /-- The system refused something. -/
  | system
  /-- The file could not be loaded. -/
  | loading
  /-- The compiler library failed. -/
  | library
  /-- A value was out of place. -/
  | value
  /-- A nesting was too deep. -/
  | depth
  /-- Anything else. -/
  | other
deriving DecidableEq, Repr

namespace Nature

/-- The names of the classes of faults in which the system refuses something. -/
def systemLabels : List String :=
  ["OSError", "FileNotFoundError", "FileExistsError", "NotADirectoryError", "IsADirectoryError",
    "PermissionError", "TimeoutError", "InterruptedError", "BlockingIOError", "ChildProcessError",
    "ProcessLookupError", "ConnectionError", "BrokenPipeError", "ConnectionAbortedError",
    "ConnectionRefusedError", "ConnectionResetError"]

/-- The names of the classes of faults in which a value is out of place. -/
def valueLabels : List String :=
  ["ValueError", "UnicodeError", "UnicodeDecodeError", "UnicodeEncodeError", "JSONDecodeError",
    "InvocationConfigError", "ProjectionConfigError", "GitIgnorePatternError"]

/-- The nature of the faults of a class. -/
def ofLabel (label : String) : Nature :=
  match label with
  | "ParserError" => .refusal
  | "ParseTimeoutError" => .timeout
  | "TranslationUnitLoadError" => .loading
  | "LibclangError" => .library
  | "RecursionError" => .depth
  | label =>
    if systemLabels.contains label then .system
    else if valueLabels.contains label then .value
    else .other

end Nature

/-- A fault of a front end. -/
structure Fault where
  /-- What it is about. -/
  nature : Nature
  /-- The name of its class. -/
  label : String
  /-- What is wrong. -/
  message : String
deriving DecidableEq, Repr

namespace Fault

/-- The fault of a class. -/
def ofLabel (label message : String) : Fault := ⟨.ofLabel label, label, message⟩

/-- The fault of a front end that cannot do anything with a file. -/
def refusal (message : String) : Fault := .ofLabel "ParserError" message

/-- The fault of a nesting that is too deep. -/
def tooDeep : Fault := .ofLabel "RecursionError" "maximum recursion depth exceeded"

end Fault

/-- A compilation in its graph. -/
structure Compilation where
  /-- The graph. -/
  graph : Graph
  /-- The compilation in it. -/
  root : Value

/-- What comes of a parse. -/
structure Attempt where
  /-- The seconds that the parse takes. -/
  seconds : Binary64
  /-- What the front end answers. -/
  result : Except Fault Compilation

instance : Inhabited Attempt := ⟨⟨.zero false, .error .tooDeep⟩⟩

/-- A front end: what comes of parsing a source file with options. -/
abbrev FrontEnd := String → ParseOptions → Attempt

end DeclGraph
