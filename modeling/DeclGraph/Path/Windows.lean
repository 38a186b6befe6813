import DeclGraph.Text.Split

/-!
# Last names of captured paths

Captured inputs may be written with either slash, with a drive letter, or as a share on a network.
`lastName` gives the last name of such a path: slashes of both kinds separate names, and what
stands for a drive, a share or a root is no name.
-/

namespace DeclGraph

namespace CapturedPath

/-- The text with every slash turned into a backslash. -/
def backslashed (cs : List Char) : List Char := cs.map fun c => if c = '/' then '\\' else c

/-- The text behind the first backslash, if there is one. -/
def behindSeparator? : List Char → Option (List Char)
  | [] => none
  | c :: cs => if c = '\\' then some cs else behindSeparator? cs

/-- Takes off the mark of an extended path; what stands behind `UNC` names a share. -/
def withoutMark : List Char → List Char
  | '\\' :: '\\' :: '?' :: '\\' :: 'U' :: 'N' :: 'C' :: '\\' :: rest => '\\' :: '\\' :: rest
  | '\\' :: '\\' :: '?' :: '\\' :: rest => rest
  | cs => cs

/-- The text behind a machine and a share, where the path names both. -/
def behindShare? : List Char → Option (List Char)
  | '\\' :: '\\' :: '\\' :: _ => none
  | '\\' :: '\\' :: rest =>
    match behindSeparator? rest with
    | none => none
    | some ('\\' :: _) => none
    | some share => some ((behindSeparator? share).getD [])
  | _ => none

/-- The text behind a drive letter, where one is there. -/
def behindDrive : List Char → List Char
  | c :: ':' :: rest =>
    if ('a' ≤ c ∧ c ≤ 'z') ∨ ('A' ≤ c ∧ c ≤ 'Z') then rest else c :: ':' :: rest
  | cs => cs

/-- The text behind the drive, share or root. -/
def relativePart (cs : List Char) : List Char :=
  let cs := withoutMark cs
  match behindShare? cs with
  | some rest => rest
  | none => (behindDrive cs).dropWhile (· = '\\')

/-- The last name of a path, or nothing where it has none. -/
def lastName (s : String) : String :=
  let names := (splitAt '\\' (relativePart (backslashed s.toList))).filter
    fun n => n ≠ [] ∧ n ≠ ['.']
  String.ofList (names.getLastD [])

end CapturedPath

end DeclGraph
