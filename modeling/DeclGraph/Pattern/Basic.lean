import DeclGraph.Pattern.Glob
import DeclGraph.Text.Blank
import DeclGraph.Text.Quoted
import DeclGraph.Text.Split

/-!
# Exclusion patterns

A pattern names paths as an ignore file does.  `Pattern.ofText?` reads one: blanks at its end do not
count, a comment and an empty line name nothing, `!` at its start takes paths back in, and slashes
separate the globs of the names.  A pattern with a slash elsewhere than at its end is read from the
top; any other may start at every name.  `**` stands for any number of names.

`Pattern.strength?` says whether a pattern names a path, and whether it does so by the whole path or
by a directory above it.
-/

namespace DeclGraph

/-- How a pattern names a path. -/
inductive Strength
  /-- By a directory that the path lies in. -/
  | byDirectory
  /-- By the whole path. -/
  | whole
deriving DecidableEq, Repr

/-- A step in matching a path. -/
inductive PatternStep
  /-- Any directories at the start, or none. -/
  | anyStart
  /-- A slash and anything behind it, or nothing. -/
  | anyInner
  /-- A whole name that may be anything. -/
  | anyName
  /-- A part of a glob. -/
  | part (p : GlobPart)
deriving DecidableEq, Repr

/-- What must stand behind the last step. -/
inductive PatternEnd
  /-- The end of the path or a slash, which makes the match one by a directory. -/
  | endOrDirectory
  /-- A slash, which makes the match one by a directory. -/
  | directory
  /-- A slash. -/
  | inside
deriving DecidableEq, Repr

/-- What a pattern asks of a path. -/
inductive PatternShape
  /-- Every path that is not empty. -/
  | everything
  /-- Every path with a slash. -/
  | belowTop (strength : Strength)
  /-- Steps one after another from the start of the path. -/
  | steps (steps : List PatternStep) (last : PatternEnd)
deriving DecidableEq, Repr

/-- A pattern that names something. -/
structure Pattern where
  /-- Whether the paths it names are excluded, and not taken back in. -/
  excludes : Bool
  /-- What it asks of a path. -/
  shape : PatternShape
deriving DecidableEq, Repr

/-- A pattern that is a mistake. -/
structure PatternError where
  /-- The pattern as it was written. -/
  pattern : String
deriving DecidableEq, Repr

/-- The words for the error. -/
def PatternError.message (e : PatternError) : String := "Invalid git pattern: " ++ quoted e.pattern

namespace Pattern

/-! ### Reading -/

/-- The segments that stand for any number of names. -/
def anyNames : List Char := ['*', '*']

/-- Of segments that stand for any number of names right behind each other, only the first. -/
def collapse : List (List Char) → List (List Char)
  | s :: t :: rest => if s = anyNames ∧ t = anyNames then collapse (t :: rest) else s :: collapse (t :: rest)
  | segments => segments

/-- The segments as they are matched: read from the top if a slash stands at the start or in the
middle, from any name otherwise; an empty last segment stands for everything below. -/
def normalize (segments : List (List Char)) : List (List Char) :=
  let anchored := match segments with
    | [] :: rest => rest
    | [s] => if s = anyNames then [s] else [anyNames, s]
    | [s, []] => if s = anyNames then [s, []] else [anyNames, s, []]
    | segments => segments
  match anchored.getLast? with
  | some [] => collapse (anchored.dropLast ++ [anyNames])
  | _ => collapse anchored

/-- The steps of a segment that is a glob. -/
def globSteps (segment : List Char) : Except GlobError (List PatternStep) :=
  if segment = ['*'] then .ok [.anyName] else (Glob.ofText? segment).map (·.map .part)

/-- The steps of the segments behind the first, and what must stand behind them; `slash` says
whether a slash comes before the next name. -/
def stepsFrom (directory : Bool) : Bool → List (List Char) →
    Except GlobError (List PatternStep × PatternEnd)
  | _, [] => .ok ([], .endOrDirectory)
  | slash, s :: rest =>
    if s = anyNames then
      match rest with
      | [] => .ok ([], if directory then .directory else .inside)
      | rest => do
        let (steps, last) ← stepsFrom directory true rest
        return (.anyInner :: steps, last)
    else do
      let lead := if slash then [PatternStep.part (.char '/')] else []
      let here ← globSteps s
      let (steps, last) ← stepsFrom directory true rest
      return (lead ++ here ++ steps, last)

/-- What segments ask of a path; `directory` says whether the pattern ended in a slash. -/
def shapeOf (directory : Bool) (segments : List (List Char)) : Except GlobError PatternShape :=
  let below := if directory then Strength.byDirectory else .whole
  match segments with
  | [['*', '*']] => .ok (if directory then .belowTop .byDirectory else .everything)
  | [['*', '*'], ['*']] => .ok .everything
  | [['*', '*'], ['*'], ['*', '*']] => .ok (.belowTop below)
  | ['*', '*'] :: rest => do
    let (steps, last) ← stepsFrom directory false rest
    return .steps (.anyStart :: steps) last
  | segments => do
    let (steps, last) ← stepsFrom directory false segments
    return .steps steps last

/-- The text of a pattern without the blanks at its end; they stay if a backslash keeps one. -/
def trimmed (cs : List Char) : List Char :=
  match cs.reverse with
  | ' ' :: '\\' :: _ => cs
  | _ => stripEnd cs

/-- Reads a pattern; one that names nothing is `none`. -/
def ofText? (text : String) : Except PatternError (Option Pattern) :=
  match trimmed text.toList with
  | [] => .ok none
  | '#' :: _ => .ok none
  | ['/'] => .ok none
  | cs =>
    let (excludes, cs) := match cs with
      | '!' :: rest => (false, rest)
      | cs => (true, cs)
    let segments := splitAt '/' cs
    let directory := segments.getLast? == some []
    match normalize segments with
    | [] => .error ⟨text⟩
    | segments =>
      match shapeOf directory segments with
      | .ok shape => .ok (some ⟨excludes, shape⟩)
      | .error .unclosed => .ok none
      | .error .trailingBackslash => .error ⟨text⟩

/-! ### Matching -/

/-- What is left of a text behind each of its starts that satisfies `p` throughout and is not
empty, the shortest start first. -/
def restsWhile (p : Char → Bool) : List Char → List (List Char)
  | [] => []
  | c :: cs => if p c then cs :: restsWhile p cs else []

/-- What is left of a path behind each slash with something in front of it on the same line, the
first slash first; `before` says whether something stands in front. -/
def restsBehindSlash (before : Bool) : List Char → List (List Char)
  | [] => []
  | c :: cs =>
    let here := if c = '/' && before then [cs] else []
    if c = '\n' then here else here ++ restsBehindSlash true cs

/-- What is left of a path behind a step, in the order in which the ways are tried: the longest
first. -/
def rests : PatternStep → List Char → List (List Char)
  | .anyStart, cs => (restsBehindSlash false cs).reverse ++ [cs]
  | .anyInner, '/' :: cs => (restsWhile (· ≠ '\n') cs).reverse ++ ['/' :: cs]
  | .anyInner, cs => [cs]
  | .anyName, cs => (restsWhile (· ≠ '/') cs).reverse
  | .part .many, cs => (restsWhile (· ≠ '/') cs).reverse ++ [cs]
  | .part _, [] => []
  | .part .one, c :: cs => if c = '/' then [] else [cs]
  | .part (.char d), c :: cs => if c = d then [cs] else []
  | .part (.oneOf k), c :: cs => if k.holds c then [cs] else []

/-- Whether nothing but a line feed may stand in a text. -/
def atEnd (cs : List Char) : Bool := cs.isEmpty || cs == ['\n']

/-- How the rest of a path ends a match. -/
def finish? : PatternEnd → List Char → Option Strength
  | .endOrDirectory, '/' :: _ => some .byDirectory
  | .endOrDirectory, cs => if atEnd cs then some .whole else none
  | .directory, '/' :: _ => some .byDirectory
  | .inside, '/' :: _ => some .whole
  | _, _ => none

/-- How steps match a path: by the first way that succeeds. -/
def matchSteps (last : PatternEnd) : List PatternStep → List Char → Option Strength
  | [], cs => finish? last cs
  | s :: steps, cs => (rests s cs).findSome? (matchSteps last steps)

/-- Whether a pattern names a path, and how. -/
def strength? (p : Pattern) (path : List Char) : Option Strength :=
  match p.shape with
  | .everything => if path.any (· ≠ '\n') then some .whole else none
  | .belowTop strength => if path.contains '/' then some strength else none
  | .steps steps last => matchSteps last steps path

end Pattern

end DeclGraph
