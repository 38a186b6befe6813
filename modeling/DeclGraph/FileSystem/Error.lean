import DeclGraph.Number.Layout
import DeclGraph.Path.Basic

/-!
# Errors of the file system

What can go wrong with a file: a cause and the path that was asked for, and for a file that is moved
the path it should go to.  A path with a zero character is no path at all.
-/

namespace DeclGraph

/-- Why the file system refuses. -/
inductive FileCause
  | notFound
  | exists
  | notDirectory
  | isDirectory
  | nameTooLong
deriving DecidableEq, Repr

namespace FileCause

/-- The number of a cause. -/
def number : FileCause → Nat
  | .notFound => 2
  | .exists => 17
  | .notDirectory => 20
  | .isDirectory => 21
  | .nameTooLong => 36

/-- The words for a cause. -/
def words : FileCause → String
  | .notFound => "No such file or directory"
  | .exists => "File exists"
  | .notDirectory => "Not a directory"
  | .isDirectory => "Is a directory"
  | .nameTooLong => "File name too long"

/-- The name of the class of errors with a cause. -/
def label : FileCause → String
  | .notFound => "FileNotFoundError"
  | .exists => "FileExistsError"
  | .notDirectory => "NotADirectoryError"
  | .isDirectory => "IsADirectoryError"
  | .nameTooLong => "OSError"

end FileCause

/-- A refusal of the file system. -/
inductive FileError
  /-- The file system refuses what was asked for a path. -/
  | refused (cause : FileCause) (path : Path)
  /-- The file system refuses to move a file. -/
  | refusedMove (cause : FileCause) (source target : Path)
  /-- The path holds a zero character. -/
  | embeddedNull
deriving DecidableEq, Repr

namespace FileError

/-- The name of the class of an error. -/
def label : FileError → String
  | .refused cause _ => cause.label
  | .refusedMove cause _ _ => cause.label
  | .embeddedNull => "ValueError"

/-- The words for an error. -/
def message : FileError → String
  | .refused cause path =>
    "[Errno " ++ Number.digits cause.number ++ "] " ++ cause.words ++ ": " ++ quoted path.text
  | .refusedMove cause source target =>
    "[Errno " ++ Number.digits cause.number ++ "] " ++ cause.words ++ ": " ++ quoted source.text
      ++ " -> " ++ quoted target.text
  | .embeddedNull => "embedded null byte"

/-- Whether the error comes from the file system, and not from the form of the path. -/
def isFromSystem : FileError → Bool
  | .embeddedNull => false
  | _ => true

end FileError

end DeclGraph
