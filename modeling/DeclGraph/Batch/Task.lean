import DeclGraph.Batch.Settings
import DeclGraph.Log
import DeclGraph.Path.Windows

/-!
# Tasks

A task is one source file of a batch with the artifact that it becomes.  An artifact stands directly
in the output directory and is called like its input, with another extension (`artifactPath`); the
lock that claims it and the file it is written to first stand beside it.
-/

namespace DeclGraph

/-- A name without its last extension.  A point at the start of a name starts no extension. -/
def withoutExtension (name : List Char) : List Char :=
  match name.reverse.dropWhile (· ≠ '.') with
  | '.' :: stem => if stem.isEmpty then name else stem.reverse
  | _ => name

/-- The name of the artifact of an input. -/
def artifactName (input extension : String) : String :=
  String.ofList (withoutExtension (CapturedPath.lastName input).toList) ++ "." ++ extension

/-- The artifact of an input. -/
def artifactPath (input : String) (directory : Path) (extension : String) : Path :=
  directory.child (artifactName input extension)

/-- The path of a file beside another one, called like it with a suffix. -/
def Path.beside (p : Path) (suffix : String) : Path :=
  ⟨p.root, p.names.dropLast ++ [p.name ++ suffix]⟩

/-- The lock that claims an artifact. -/
def lockPath (artifact : Path) : Path := artifact.beside ".lock"

/-- The file that an artifact is written to before it takes its place. -/
def tempPath (artifact : Path) : Path := artifact.beside ".tmp"

/-- One source file of a batch. -/
structure Task where
  /-- The source file. -/
  source : String
  /-- Its artifact. -/
  artifact : Path
  /-- What its parse is told. -/
  options : ParseOptions
deriving DecidableEq, Repr

/-- What is planned for an input: it is handled, or it is left out. -/
inductive Plan
  | handled (task : Task)
  | excluded (input : String)
deriving DecidableEq, Repr

namespace Plan

/-- The task of an input that is handled. -/
def task? : Plan → Option Task
  | .handled task => some task
  | .excluded _ => none

/-- What is told of an input that is left out. -/
def log : Plan → List LogLine
  | .handled _ => []
  | .excluded input => [.info ("Input excluded by pattern (input=" ++ input ++ ")")]

end Plan

namespace Batch

/-- The plan for an input of an invocation. -/
def plan (b : Batch) (directory : Path) (options : ParseOptions) (input : String) : Plan :=
  if b.filter.excludes input then .excluded input
  else
    let path := joinText b.settings.sourceDirectory input
    let source :=
      if b.settings.preprocessed then path ++ BatchSettings.preprocessedSuffix else path
    .handled ⟨source, artifactPath source directory b.settings.extension, options⟩

/-- The plans for the inputs of an invocation. -/
def plansOf (b : Batch) (directory : Path) (inv : Invocation) : List Plan :=
  let options :=
    ParseOptions.ofInvocation (inv.rebase b.settings.sourceDirectory) b.profile
  inv.inputs.map (b.plan directory options)

/-- The plans for the inputs of invocations, in order. -/
def plans (b : Batch) (directory : Path) (invs : List Invocation) : List Plan :=
  invs.flatMap (b.plansOf directory)

/-- The tasks of invocations, in order. -/
def tasks (b : Batch) (directory : Path) (invs : List Invocation) : List Task :=
  (b.plans directory invs).filterMap Plan.task?

end Batch

end DeclGraph
