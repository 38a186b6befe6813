import DeclGraph.Batch.Run
import DeclGraph.CommandLine.Command
import DeclGraph.Invocation.File
import DeclGraph.Invocation.Split
import DeclGraph.Projection.File
import DeclGraph.Summary.Basic

/-!
# Running commands

`CommandLine.run` carries out a command line.  Its reply says what is printed, what is complained of
and the exit code: 0 when all went well, 1 when a file of the batch failed, 2 when the command line
or a document of the configuration is no good or an output cannot be written.
-/

namespace DeclGraph

/-- What a command line comes to. -/
structure CommandReply where
  /-- The exit code. -/
  exitCode : Nat
  /-- What is printed. -/
  output : String
  /-- What is complained of. -/
  complaint : String
deriving DecidableEq, Repr

/-- A failure of a command: it is complained of, or it is not foreseen and stops everything. -/
abbrev CommandEnding := Except Failure CommandReply

namespace CommandReply

/-- The reply that nothing was done. -/
def refusal (complaint : String) : CommandReply := ⟨2, "", complaint⟩

/-- The reply to a batch that came to its end. -/
def ofReport (r : BatchReport) : CommandReply := ⟨if r.hasFailures then 1 else 0, r.summary, ""⟩

end CommandReply

namespace RunCommand

/-- The rules of the batch. -/
def loadRules (c : RunCommand) : Program (Except Failure Rules) :=
  match c.rules? with
  | none => return .ok .standard
  | some path =>
    if path.isEmpty then return .ok .standard else Rules.load (Path.ofText path)

/-- The documents of the configuration. -/
def loadAll (c : RunCommand) : Program (Except Failure (List Invocation × Rules)) := do
  match ← Invocation.load (Path.ofText c.config) with
  | .error e => return .error e
  | .ok invs =>
    match ← c.loadRules with
    | .error e => return .error e
    | .ok rules => return .ok (invs, rules)

/-- The reply to what a batch came to. -/
def conclude (c : RunCommand) : Except Failure BatchReport → Program CommandEnding
  | .ok report => return .ok (.ofReport report)
  | .error (.rules e) => do
    Program.tell [.warning ("Projection rules cannot be applied (error=" ++ e.message ++ ")")]
    return .ok (.refusal ("Invalid configuration: " ++ e.message ++ "\n"))
  | .error e => do
    if e.isFromSystem then
      Program.tell [.warning ("Output directory unusable (obj_dir=" ++ c.objectDirectory ++ " error="
        ++ e.message ++ ")")]
      return .ok (.refusal ("Output directory unusable: " ++ c.objectDirectory ++ "\n"))
    else return .error e

/-- Handles the batch of invocations. -/
def runBatch (c : RunCommand) (invs : List Invocation) (rules : Rules) : Program CommandEnding := do
  let invs ← if c.targets.isEmpty then pure invs else do
    Program.tell (Invocation.splitLog invs c.targets)
    pure (Invocation.split invs c.targets)
  match Batch.make? c.settings .standard rules with
  | .error e => c.conclude (.error e)
  | .ok batch => c.conclude (← batch.run invs)

/-- Carries out the command. -/
def run (c : RunCommand) : Program CommandEnding := do
  let path := Path.ofText c.config
  match ← Program.request (.exists path) with
  | .error e => return .error (.file e)
  | .ok false =>
    Program.tell [.warning ("Config file does not exist (path=" ++ path.text ++ ")")]
    return .ok (.refusal ("Config file does not exist: " ++ path.text ++ "\n"))
  | .ok true =>
    if c.workers ≤ 0 then
      Program.tell [.warning ("Invalid worker count (workers=" ++ Number.ofInt c.workers ++ ")")]
      return .ok (.refusal "workers must be > 0\n")
    else if (c.timeout?.map Binary64.nonPositive).getD false then
      let timeout := (c.timeout?.map Number.Layout.display.render).getD ""
      Program.tell [.warning ("Invalid timeout (timeout=" ++ timeout ++ ")")]
      return .ok (.refusal "timeout must be > 0\n")
    else
      match ← c.loadAll with
      | .ok (invs, rules) => c.runBatch invs rules
      | .error e =>
        if e.isAnnounced then
          Program.tell [.warning ("Invalid configuration (error=" ++ e.message ++ ")")]
          return .ok (.refusal ("Invalid configuration: " ++ e.message ++ "\n"))
        else return .error e

end RunCommand

namespace SplitCommand

/-- Carries out the command. -/
def run (c : SplitCommand) : Program CommandEnding := do
  let path := Path.ofText c.config
  match ← Invocation.load path with
  | .error e =>
    if e.isAnnounced then
      Program.tell [.warning ("Invalid configuration (path=" ++ path.text ++ " error=" ++ e.message
        ++ ")")]
      return .ok (.refusal ("Invalid configuration: " ++ e.message ++ "\n"))
    else return .error e
  | .ok invs =>
    Program.tell (Invocation.splitLog invs c.targets)
    let result := Invocation.split invs c.targets
    let output := Path.ofText c.output
    match ← Invocation.store result output with
    | .error e =>
      if e.isFromSystem then
        Program.tell [.warning ("Failed to write split config (output_path=" ++ output.text
          ++ " error=" ++ e.message ++ ")")]
        return .ok (.refusal ("Failed to write split config: " ++ output.text ++ "\n"))
      else return .error e
    | .ok () =>
      Program.tell [.info ("Split config written (output_path=" ++ output.text
        ++ " invocations_before=" ++ Number.digits invs.length ++ " invocations_after="
        ++ Number.digits result.length ++ ")")]
      return .ok ⟨0, output.text ++ "\n", ""⟩

end SplitCommand

namespace CommandLine

/-- What is told of a command line that makes no command. -/
def refusalLog (arguments : List String) : List LogLine :=
  [.warning ("Argument parsing failed (argv=[" ++ ", ".intercalate (arguments.map quoted) ++ "])")]

/-- Carries out a command line. -/
def run (arguments : List String) : Program CommandEnding :=
  match Command.ofArguments? arguments with
  | none => do
    Program.tell (refusalLog arguments)
    return .ok (.refusal "")
  | some (.run c) => c.run
  | some (.split c) => c.run

end CommandLine

end DeclGraph
