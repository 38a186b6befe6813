import DeclGraph.Batch.Settings
import DeclGraph.CommandLine.Options

/-!
# Commands

There are two commands: `run` handles a batch, and `split` writes a document in which chosen inputs
have invocations of their own.  `Command.ofArguments?` reads a command line.
-/

namespace DeclGraph

/-- What the command `run` is told. -/
structure RunCommand where
  /-- The document of invocations. -/
  config : String
  /-- The directory that the compiler ran in. -/
  sourceDirectory : String
  /-- The directory for artifacts. -/
  objectDirectory : String
  /-- The inputs that get invocations of their own. -/
  targets : List String
  /-- The patterns of the inputs that are left out. -/
  excluded : List String
  /-- How many files are handled at once. -/
  workers : Int
  /-- The seconds that a parse may take. -/
  timeout? : Option Binary64
  /-- Whether warnings are reported. -/
  warnings : Bool
  /-- Whether declarations are reported. -/
  info : Bool
  /-- Whether the outputs of the preprocessor are parsed in place of the inputs. -/
  preprocessed : Bool
  /-- The document of rules. -/
  rules? : Option String
deriving DecidableEq, Repr

/-- What the command `split` is told. -/
structure SplitCommand where
  /-- The document of invocations. -/
  config : String
  /-- The inputs that get invocations of their own. -/
  targets : List String
  /-- The document to be written. -/
  output : String
deriving DecidableEq, Repr

/-- A command. -/
inductive Command
  | run (c : RunCommand)
  | split (c : SplitCommand)
deriving DecidableEq, Repr

namespace RunCommand

/-- The options of `run`. -/
def options : List CommandOption :=
  [⟨"--help", false⟩, ⟨"--config", true⟩, ⟨"--src-dir", true⟩, ⟨"--obj-dir", true⟩,
    ⟨"--split", true⟩, ⟨"--exclude", true⟩, ⟨"--workers", true⟩, ⟨"--timeout", true⟩,
    ⟨"--warnings", false⟩, ⟨"--info", false⟩, ⟨"--preprocessed", false⟩, ⟨"--rules", true⟩,
    ⟨"--libclang", true⟩]

/-- The command that given options make. -/
def ofOptions? (given : GivenOptions) : Option RunCommand := do
  let workers ← given.read? "--workers" Numeral.int? 1
  let timeout? ← given.read? "--timeout" (fun s => (Numeral.float? s).map some) none
  let config ← given.last? "--config"
  let sourceDirectory ← given.last? "--src-dir"
  let objectDirectory ← given.last? "--obj-dir"
  if given.has "--help" then none
  else return { config, sourceDirectory, objectDirectory, workers, timeout?
                targets := given.all "--split"
                excluded := given.all "--exclude"
                warnings := given.has "--warnings"
                info := given.has "--info"
                preprocessed := given.has "--preprocessed"
                rules? := given.last? "--rules" }

/-- The settings of the batch. -/
def settings (c : RunCommand) : BatchSettings where
  sourceDirectory := c.sourceDirectory
  objectDirectory := Path.ofText c.objectDirectory
  extension := "obj"
  preprocessed := c.preprocessed
  workers := c.workers
  timeout? := c.timeout?
  warnings := c.warnings
  info := c.info
  excluded := c.excluded

end RunCommand

namespace SplitCommand

/-- The options of `split`. -/
def options : List CommandOption :=
  [⟨"--help", false⟩, ⟨"--config", true⟩, ⟨"--file", true⟩, ⟨"--output", true⟩]

/-- The command that given options make. -/
def ofOptions? (given : GivenOptions) : Option SplitCommand := do
  let config ← given.last? "--config"
  let output ← given.last? "--output"
  if given.has "--help" || !given.has "--file" then none
  else return { config, output, targets := given.all "--file" }

end SplitCommand

namespace Command

/-- Reads a command line. -/
def ofArguments? : List String → Option Command
  | "run" :: rest => do
    let given ← Options.read RunCommand.options rest
    return .run (← RunCommand.ofOptions? given)
  | "split" :: rest => do
    let given ← Options.read SplitCommand.options rest
    return .split (← SplitCommand.ofOptions? given)
  | _ => none

end Command

end DeclGraph
