import DeclGraph.Pattern.Basic

/-!
# Lists of exclusion patterns

The last pattern that names a path by the whole of it decides; where none does, the last that names
it by a directory.  `InputFilter` applies such a list to captured inputs, which may be written with
either slash.
-/

namespace DeclGraph

namespace Pattern

/-- Reads a list of patterns, without those that name nothing. -/
def listOfTexts : List String → Except PatternError (List Pattern)
  | [] => .ok []
  | text :: rest => do
    let p ← ofText? text
    let ps ← listOfTexts rest
    return p.toList ++ ps

/-- The path as patterns see it: without one slash or one `./` at its start. -/
def relative : List Char → List Char
  | '/' :: rest => rest
  | '.' :: '/' :: rest => rest
  | cs => cs

/-- Whether patterns, given from the last to the first, exclude a path; `soFar` is what the last
match by a directory said. -/
def decide (path : List Char) : List Pattern → Option Bool → Bool
  | [], soFar => soFar.getD false
  | p :: rest, soFar =>
    match p.strength? path with
    | some .whole => p.excludes
    | some .byDirectory => decide path rest (some (soFar.getD p.excludes))
    | none => decide path rest soFar

/-- Whether a list of patterns excludes a path. -/
def listExcludes (patterns : List Pattern) (path : List Char) : Bool :=
  decide (relative path) patterns.reverse none

end Pattern

/-- The inputs that a batch leaves out. -/
structure InputFilter where
  /-- The patterns, in order. -/
  patterns : List Pattern
deriving DecidableEq, Repr

namespace InputFilter

/-- The filter that patterns describe. -/
def ofTexts? (texts : List String) : Except PatternError InputFilter :=
  (Pattern.listOfTexts texts).map fun patterns => ⟨patterns⟩

/-- An input with slashes between its names and none at its ends. -/
def slashed (input : String) : List Char :=
  let cs := input.toList.map fun c => if c = '\\' then '/' else c
  ((cs.dropWhile (· = '/')).reverse.dropWhile (· = '/')).reverse

/-- Whether an input is left out.  An input without a name never is. -/
def excludes (filter : InputFilter) (input : String) : Bool :=
  let path := slashed input
  !path.isEmpty && Pattern.listExcludes filter.patterns path

end InputFilter

end DeclGraph
