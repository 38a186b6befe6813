import DeclGraph.Entries
import DeclGraph.FileSystem.Error
import DeclGraph.Text.Utf8

/-!
# File systems

A `FileSystem` is a tree of directories and files as a value: every place below the root directory
where something stands, and the place of the working directory.  `FileSystem.locate` finds the
place that a path means, name by name; the operations change one place each, and each of them is
one step that nothing can interrupt.
-/

namespace DeclGraph

/-- A place in the tree: the names from the root directory down. -/
abbrev Place := List String

/-- What stands at a place. -/
inductive Entry
  /-- A directory. -/
  | directory
  /-- A file with its octets. -/
  | file (content : List UInt8)
deriving DecidableEq, Repr

/-- A file system. -/
structure FileSystem where
  /-- What stands where; the root directory is always there. -/
  entries : Entries Place Entry
  /-- The place of the working directory. -/
  workingDirectory : Place
deriving DecidableEq, Repr

namespace FileSystem

/-- The file system with an empty working directory. -/
def fresh : FileSystem := ⟨[(["work"], .directory)], ["work"]⟩

instance : Inhabited FileSystem := ⟨fresh⟩

/-- What stands at a place. -/
def get? (fs : FileSystem) (place : Place) : Option Entry :=
  if place = [] then some .directory else Entries.get? place fs.entries

/-- The file system with something standing at a place. -/
def put (fs : FileSystem) (place : Place) (e : Entry) : FileSystem :=
  { fs with entries := Entries.put place e fs.entries }

/-- The file system with nothing standing at a place. -/
def remove (fs : FileSystem) (place : Place) : FileSystem :=
  { fs with entries := fs.entries.filter fun e => e.1 ≠ place }

/-- The most octets a name may have. -/
def nameLimit : Nat := 255

/-- The most octets a path may have. -/
def pathLimit : Nat := 4095

/-- The place that names lead to from a place, and what stands there.  Every name but the last must
lead to a directory, and what a name is looked up in must be one. -/
def walk (fs : FileSystem) : Place → List String → Except FileCause (Place × Option Entry)
  | here, [] => .ok (here, fs.get? here)
  | here, name :: rest =>
    if fs.get? here ≠ some .directory then .error .notDirectory
    else if name = ".." then fs.walk here.dropLast rest
    else if nameLimit < name.utf8ByteSize then .error .nameTooLong
    else
      let there := here ++ [name]
      match fs.get? there, rest with
      | none, [] => .ok (there, none)
      | none, _ :: _ => .error .notFound
      | some _, rest => fs.walk there rest

/-- The place that a path means, and what stands there. -/
def locate (fs : FileSystem) (path : Path) : Except FileError (Place × Option Entry) :=
  if path.names.any fun name => name.toList.contains '\x00' then .error .embeddedNull
  else if pathLimit < path.text.utf8ByteSize then .error (.refused .nameTooLong path)
  else
    let start := match path.root with
      | .relative => fs.workingDirectory
      | _ => []
    (fs.walk start path.names).mapError fun cause => .refused cause path

/-! ### Questions -/

/-- Whether something stands where a path means.  A path that leads nowhere, or that is none, means
nothing; other refusals are told. -/
def «exists» (fs : FileSystem) (path : Path) : Except FileError Bool :=
  match fs.locate path with
  | .ok (_, e) => .ok e.isSome
  | .error (.refused .nameTooLong path) => .error (.refused .nameTooLong path)
  | .error _ => .ok false

/-- Whether a path means a directory. -/
def isDirectory (fs : FileSystem) (path : Path) : Bool :=
  match fs.locate path with
  | .ok (_, some .directory) => true
  | _ => false

/-- The octets of a file. -/
def read (fs : FileSystem) (path : Path) : Except FileError (List UInt8) :=
  match fs.locate path with
  | .ok (_, some (.file content)) => .ok content
  | .ok (_, some .directory) => .error (.refused .isDirectory path)
  | .ok (_, none) => .error (.refused .notFound path)
  | .error e => .error e

/-! ### Changes -/

/-- Creates an empty file where nothing stands. -/
def createExclusive (fs : FileSystem) (path : Path) : Except FileError FileSystem :=
  match fs.locate path with
  | .ok (place, none) => .ok (fs.put place (.file []))
  | .ok (_, some _) => .error (.refused .exists path)
  | .error e => .error e

/-- Opens a file to be written: it is empty then, whatever was in it. -/
def openEmpty (fs : FileSystem) (path : Path) : Except FileError FileSystem :=
  match fs.locate path with
  | .ok (_, some .directory) => .error (.refused .isDirectory path)
  | .ok (place, _) => .ok (fs.put place (.file []))
  | .error e => .error e

/-- Writes the octets of a file, which is created where nothing stands. -/
def write (fs : FileSystem) (path : Path) (content : List UInt8) : Except FileError FileSystem :=
  match fs.locate path with
  | .ok (_, some .directory) => .error (.refused .isDirectory path)
  | .ok (place, _) => .ok (fs.put place (.file content))
  | .error e => .error e

/-- Removes a file. -/
def unlink (fs : FileSystem) (path : Path) : Except FileError FileSystem :=
  match fs.locate path with
  | .ok (place, some (.file _)) => .ok (fs.remove place)
  | .ok (_, some .directory) => .error (.refused .isDirectory path)
  | .ok (_, none) => .error (.refused .notFound path)
  | .error e => .error e

/-- Removes a file; where nothing stands nothing is done. -/
def unlinkIfThere (fs : FileSystem) (path : Path) : Except FileError FileSystem :=
  match fs.unlink path with
  | .error (.refused .notFound _) => .ok fs
  | result => result

/-- Moves a file to another path, in the place of the file that stands there. -/
def replace (fs : FileSystem) (source target : Path) : Except FileError FileSystem :=
  match fs.locate source with
  | .ok (place, some (.file content)) =>
    match fs.locate target with
    | .ok (_, some .directory) => .error (.refusedMove .isDirectory source target)
    | .ok (goal, _) => .ok ((fs.remove place).put goal (.file content))
    | .error (.refused cause _) => .error (.refusedMove cause source target)
    | .error e => .error e
  | .ok (_, some .directory) => .error (.refusedMove .isDirectory source target)
  | .ok (_, none) => .error (.refusedMove .notFound source target)
  | .error (.refused cause _) => .error (.refusedMove cause source target)
  | .error e => .error e

/-- Creates a directory where nothing stands. -/
def makeDirectory (fs : FileSystem) (path : Path) : Except FileError FileSystem :=
  match fs.locate path with
  | .ok (place, none) => .ok (fs.put place .directory)
  | .ok (_, some _) => .error (.refused .exists path)
  | .error e => .error e

/-- A directory that is there already is as good as a created one, where that is wanted. -/
def settle (fs : FileSystem) (path : Path) (existing : Bool) (e : FileError) :
    Except FileError FileSystem :=
  if existing && e.isFromSystem && fs.isDirectory path then .ok fs else .error e

/-- Creates a directory and, where they are missing, the directories above it: those of the paths
that `depth` names fewer leave.  What was created stays when a later step is refused. -/
def makeDirectoriesWithin (path : Path) (existing : Bool) :
    Nat → FileSystem → FileSystem × Except FileError Unit
  | depth, fs =>
    match fs.makeDirectory path with
    | .ok fs => (fs, .ok ())
    | .error (.refused .notFound _) =>
      match depth with
      | 0 => (fs, .error (.refused .notFound path))
      | depth + 1 =>
        match makeDirectoriesWithin path.parent true depth fs with
        | (fs, .error e) => (fs, .error e)
        | (fs, .ok ()) =>
          match fs.makeDirectory path with
          | .ok fs => (fs, .ok ())
          | .error (.refused .notFound _) => (fs, .error (.refused .notFound path))
          | .error e => (fs, (fs.settle path existing e).map fun _ => ())
    | .error e => (fs, (fs.settle path existing e).map fun _ => ())

/-- Creates a directory with the directories above it.  One that is there already is refused unless
`existing` allows it. -/
def makeDirectories (fs : FileSystem) (path : Path) (existing : Bool) :
    FileSystem × Except FileError Unit :=
  makeDirectoriesWithin path existing path.names.length fs

/-! ### Listings -/

/-- What stands below the working directory, by the text of its path, in order. -/
def listing (fs : FileSystem) : List (String × Entry) :=
  let below := fs.entries.filterMap fun (place, e) =>
    if fs.workingDirectory.isPrefixOf place ∧ place ≠ fs.workingDirectory then
      some ("/".intercalate (place.drop fs.workingDirectory.length), e)
    else none
  below.mergeSort fun a b => !decide (b.1 < a.1)

end FileSystem

end DeclGraph
