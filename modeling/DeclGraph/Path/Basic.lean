import DeclGraph.Text.Quoted
import DeclGraph.Text.Split

/-!
# Paths

A `Path` is a root and the names below it.  `Path.ofText` reads one: slashes in a row count as one
and names `.` are dropped, while `..` stays.  Two slashes at the start, and no more, are a root of
their own.  `Path.text` writes a path with single slashes.
-/

namespace DeclGraph

/-- Where a path starts. -/
inductive Root
  /-- At the working directory. -/
  | relative
  /-- At the root directory. -/
  | single
  /-- At the root directory, written with two slashes. -/
  | double
deriving DecidableEq, Repr

/-- The slashes of a root. -/
def Root.text : Root → String
  | .relative => ""
  | .single => "/"
  | .double => "//"

/-- A path: its root and its names. -/
structure Path where
  /-- Where the path starts. -/
  root : Root
  /-- The names below the root, the outermost first. -/
  names : List String
deriving DecidableEq, Repr

namespace Path

/-- The names of a text between slashes, without the empty ones and `.`. -/
def namesOf (cs : List Char) : List String :=
  ((splitAt '/' cs).filter fun n => n ≠ [] ∧ n ≠ ['.']).map String.ofList

/-- The root that the slashes at the start of a text stand for. -/
def rootOf : List Char → Root
  | '/' :: '/' :: '/' :: _ => .single
  | '/' :: '/' :: _ => .double
  | '/' :: _ => .single
  | _ => .relative

/-- Reads a path. -/
def ofText (s : String) : Path := ⟨rootOf s.toList, namesOf s.toList⟩

/-- The text of a path; the working directory itself is a point. -/
def text (p : Path) : String :=
  let s := p.root.text ++ "/".intercalate p.names
  if s.isEmpty then "." else s

/-- The last name, or nothing where there is none. -/
def name (p : Path) : String := p.names.getLastD ""

/-- The path without its last name. -/
def parent (p : Path) : Path := ⟨p.root, p.names.dropLast⟩

/-- `p` with what a text names below it; a text that starts at a root replaces `p`. -/
def child (p : Path) (s : String) : Path :=
  let q := ofText s
  match q.root with
  | .relative => ⟨p.root, p.names ++ q.names⟩
  | _ => q

/-- Why the name of a path cannot be changed. -/
inductive NameError
  /-- The path has no name. -/
  | empty (p : Path)
  /-- The new name is no name. -/
  | invalid (name : String)
deriving DecidableEq, Repr

/-- The words for an error. -/
def NameError.message : NameError → String
  | .empty p => "PosixPath(" ++ quoted p.text ++ ") has an empty name"
  | .invalid name => "Invalid name " ++ quoted name

/-- Whether a text is a single name. -/
def isName (s : String) : Bool :=
  rootOf s.toList == .relative && (namesOf s.toList).length == 1 && s.toList.getLast? != some '/'

/-- `p` with another last name. -/
def withName (p : Path) (name : String) : Except NameError Path :=
  if p.name.isEmpty then .error (.empty p)
  else if isName name then .ok ⟨p.root, p.names.dropLast ++ [name]⟩
  else .error (.invalid name)

/-- `p` with a suffix behind its last name. -/
def withSuffix (p : Path) (suffix : String) : Except NameError Path :=
  p.withName (p.name ++ suffix)

end Path

end DeclGraph
