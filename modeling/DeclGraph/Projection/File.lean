import DeclGraph.Program.TextFile
import DeclGraph.Projection.Document

/-!
# Rules in files

`Rules.load` reads the rules of a file.
-/

namespace DeclGraph

namespace Rules

/-- What is told of rules that have been read. -/
def loadLog (path : Path) (document : RulesDocument) : List LogLine :=
  [.info ("Loaded projection rules (path=" ++ path.text ++ " whitelists="
    ++ Number.digits document.whitelists.length ++ " blacklist="
    ++ Number.digits document.blacklist.length ++ ")")]

/-- Reads the rules of a file. -/
def load (path : Path) : Program (Except Failure Rules) := do
  match ← TextFile.read path with
  | .error e => return .error e
  | .ok text =>
    match RulesDocument.ofText text with
    | .error e => return .error (.ofRules e)
    | .ok document =>
      match document.rules with
      | .error e => return .error (.ofRules e)
      | .ok rules =>
        Program.tell (loadLog path document)
        return .ok rules

end Rules

end DeclGraph
