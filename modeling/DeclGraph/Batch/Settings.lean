import DeclGraph.Failure
import DeclGraph.FrontEnd.Options

/-!
# Batch settings

What a batch is told: where the compiler ran, where the artifacts go and how they are called, how
many files are handled at once, how long a parse may take, what is reported and what is left out.
`Batch.make?` refuses settings that make no sense.
-/

namespace DeclGraph

/-- The settings of a batch. -/
structure BatchSettings where
  /-- The directory that the compiler ran in. -/
  sourceDirectory : String
  /-- The directory for artifacts. -/
  objectDirectory : Path
  /-- The extension of artifacts. -/
  extension : String
  /-- Whether the outputs of the preprocessor are parsed in place of the inputs. -/
  preprocessed : Bool
  /-- How many files are handled at once. -/
  workers : Int
  /-- The seconds that a parse may take. -/
  timeout? : Option Binary64
  /-- Whether warnings are reported. -/
  warnings : Bool
  /-- Whether declarations are reported. -/
  info : Bool
  /-- The patterns of the inputs that are left out. -/
  excluded : List String
deriving DecidableEq, Repr

namespace BatchSettings

/-- The usual settings for a source directory and a directory for artifacts. -/
def standard (sourceDirectory : String) (objectDirectory : Path) : BatchSettings :=
  ⟨sourceDirectory, objectDirectory, "obj", false, 1, none, false, false, []⟩

/-- What is added to the name of an input to name its preprocessed form. -/
def preprocessedSuffix : String := ".ipp"

/-- What is added to the directory for artifacts of preprocessed inputs. -/
def preprocessedDirectorySuffix : String := "_i"

/-- The directory that artifacts are written to. -/
def outputDirectory (s : BatchSettings) : Except Path.NameError Path :=
  if s.preprocessed then s.objectDirectory.withSuffix preprocessedDirectorySuffix
  else .ok s.objectDirectory

/-- Whether a parse takes longer than it may. -/
def isLate (s : BatchSettings) (seconds : Binary64) : Bool :=
  match s.timeout? with
  | some limit => limit.lt seconds
  | none => false

/-- What is told of a parse that takes too long. -/
def lateText (s : BatchSettings) : String :=
  "parse exceeded " ++ (s.timeout?.map Number.Layout.brief.render).getD "" ++ "s"

end BatchSettings

/-- A batch that can be run. -/
structure Batch where
  /-- The settings. -/
  settings : BatchSettings
  /-- What every parse is told. -/
  profile : Profile
  /-- Which fields are written. -/
  rules : Rules
  /-- The inputs that are left out. -/
  filter : InputFilter
deriving DecidableEq, Repr

namespace Batch

/-- The batch with the given settings, if they make sense. -/
def make? (settings : BatchSettings) (profile : Profile) (rules : Rules) : Except Failure Batch :=
  if settings.workers ≤ 0 then .error .noWorkers
  else if (settings.timeout?.map Binary64.nonPositive).getD false then .error .noTime
  else match InputFilter.ofTexts? settings.excluded with
    | .ok filter => .ok ⟨settings, profile, rules, filter⟩
    | .error e => .error (.pattern e)

end Batch

end DeclGraph
