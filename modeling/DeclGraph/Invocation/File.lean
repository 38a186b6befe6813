import DeclGraph.Program.TextFile

/-!
# Invocations in files

`Invocation.load` reads the invocations of a file, and `Invocation.store` writes a file that reads
as the same invocations.
-/

namespace DeclGraph

namespace Invocation

/-- What is told of invocations that have been read. -/
def loadLog (path : Path) (invs : List Invocation) : List LogLine :=
  let inputs := (invs.map fun inv => inv.inputs.length).foldr (· + ·) 0
  [.info ("Loaded batch config (path=" ++ path.text ++ " invocations=" ++ Number.digits invs.length
    ++ " inputs=" ++ Number.digits inputs ++ ")")]

/-- Reads the invocations of a file. -/
def load (path : Path) : Program (Except Failure (List Invocation)) := do
  match ← TextFile.read path with
  | .error e => return .error e
  | .ok text =>
    match listOfText text with
    | .error e => return .error (.ofDocument e)
    | .ok invs =>
      Program.tell (loadLog path invs)
      return .ok invs

/-- Writes the file of invocations. -/
def store (invs : List Invocation) (path : Path) : Program (Except Failure Unit) :=
  TextFile.write path (listToText invs)

end Invocation

end DeclGraph
