import DeclGraph.Log
import DeclGraph.TranslationUnit.Compilation

/-!
# Front ends from translation units

A compiler library loads a translation unit, or fails to.  `TranslationUnit.parse` makes the answer
of a front end out of what it says: a unit that cannot be loaded, or whose conversion stumbles over
a value, over its depth or over the library, is told as one that the front end can do nothing with.
Other faults are passed on.
-/

namespace DeclGraph

namespace TranslationUnit

/-- Whether a fault of loading is told as a unit that nothing can be done with. -/
def isLoadingFault (f : Fault) : Bool := f.nature matches .loading | .library

/-- Whether a fault of converting is told as a unit that nothing can be done with. -/
def isConversionFault (f : Fault) : Bool := f.nature matches .value | .depth | .library

/-- The answer of a front end, from what comes of loading a unit. -/
def parse (source : String) (options : ParseOptions) (loaded : Except Fault TranslationUnit) :
    Except Fault Compilation :=
  match loaded with
  | .error f =>
    if isLoadingFault f then .error (.refusal ("libclang could not parse " ++ source ++ ": " ++ f.message))
    else .error f
  | .ok u =>
    match u.compilation source options with
    | .ok c => .ok c
    | .error f =>
      if isConversionFault f then
        .error (.refusal ("libclang could not convert " ++ source ++ ": " ++ f.message))
      else .error f

/-- What the front end tells. -/
def parseLog (source : String) (options : ParseOptions) (loaded : Except Fault TranslationUnit) :
    List LogLine :=
  match loaded with
  | .error f =>
    if isLoadingFault f then
      [.warning ("libclang failed to load file (path=" ++ source ++ " error=" ++ f.message ++ ")")]
    else []
  | .ok u =>
    match u.compilation source options with
    | .ok _ => []
    | .error f =>
      if isConversionFault f then
        [.warning ("Declaration graph conversion failed (path=" ++ source ++ " error_type=" ++ f.label
          ++ " error=" ++ f.message ++ ")")]
      else []

end TranslationUnit

end DeclGraph
