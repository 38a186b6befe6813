import DeclGraph.FileSystem.Basic
import DeclGraph.Program.Basic

/-!
# Worlds

A `World` answers the requests of programs: it is a file system, the log so far and the parses that
were asked for.  Time passes in parses only, so a world needs no clock.
-/

namespace DeclGraph

/-- A parse that was asked for. -/
structure Call where
  /-- The source file. -/
  source : String
  /-- The options. -/
  options : ParseOptions
deriving DecidableEq, Repr

/-- The surroundings of a program. -/
structure World where
  /-- The files. -/
  files : FileSystem
  /-- The lines of the log. -/
  log : List LogLine
  /-- The parses that were asked for. -/
  calls : List Call
deriving DecidableEq, Repr

namespace World

/-- The world with an empty working directory, where nothing has happened. -/
def fresh : World := ⟨.fresh, [], []⟩

instance : Inhabited World := ⟨fresh⟩

/-- The world with a file system. -/
def ofFiles (files : FileSystem) : World := ⟨files, [], []⟩

/-- The answer to a change of the files and the world behind it; a refused change is none. -/
def change (w : World) : Except FileError FileSystem → Except FileError Unit × World
  | .ok files => (.ok (), { w with files := files })
  | .error e => (.error e, w)

/-- The answer to a request and the world behind it. -/
def perform (frontEnd : FrontEnd) (w : World) : {β : Type} → Request β → β × World
  | _, .exists path => (w.files.exists path, w)
  | _, .read path => (w.files.read path, w)
  | _, .createExclusive path => w.change (w.files.createExclusive path)
  | _, .openEmpty path => w.change (w.files.openEmpty path)
  | _, .write path content => w.change (w.files.write path content)
  | _, .replace source target => w.change (w.files.replace source target)
  | _, .unlinkIfThere path => w.change (w.files.unlinkIfThere path)
  | _, .makeDirectories path =>
    let (files, answer) := w.files.makeDirectories path true
    (answer, { w with files := files })
  | _, .parse source options =>
    (frontEnd source options, { w with calls := w.calls ++ [⟨source, options⟩] })
  | _, .log line => ((), { w with log := w.log ++ [line] })

end World

namespace Program

/-- The result of a program in a world, and the world behind it. -/
def runIn {α : Type} (frontEnd : FrontEnd) : Program α → World → α × World
  | done a, w => (a, w)
  | ask request next, w =>
    let (answer, w) := w.perform frontEnd request
    (next answer).runIn frontEnd w

/-- A program that has nothing to ask changes nothing. -/
@[simp] theorem runIn_pure {α : Type} (frontEnd : FrontEnd) (a : α) (w : World) :
    (pure a : Program α).runIn frontEnd w = (a, w) := rfl

/-- The second of two programs runs in the world that the first leaves. -/
@[simp] theorem runIn_bind {α β : Type} (frontEnd : FrontEnd) (p : Program α) (k : α → Program β)
    (w : World) : (p >>= k).runIn frontEnd w =
      (k (p.runIn frontEnd w).1).runIn frontEnd (p.runIn frontEnd w).2 := by
  show (p.andThen k).runIn frontEnd w = _
  induction p generalizing w with
  | done a => rfl
  | ask request next ih => exact ih _ _

/-- Asking in a world. -/
@[simp] theorem runIn_request {β : Type} (frontEnd : FrontEnd) (r : Request β) (w : World) :
    (request r).runIn frontEnd w = w.perform frontEnd r := rfl

/-- Lines are added to the log in order. -/
theorem runIn_tell (frontEnd : FrontEnd) (lines : List LogLine) (w : World) :
    (tell lines).runIn frontEnd w = ((), { w with log := w.log ++ lines }) := by
  induction lines generalizing w with
  | nil => simp [tell, runIn]
  | cons line rest ih => simp [tell, runIn, World.perform, ih]

end Program

end DeclGraph
