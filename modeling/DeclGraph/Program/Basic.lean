import DeclGraph.FileSystem.Error
import DeclGraph.FrontEnd.Basic
import DeclGraph.Log

/-!
# Programs

A `Program` is a computation that asks its surroundings for things one after another and goes on
with the answers.  What can be asked is a `Request`; each is one step that nothing can interrupt.
Programs say nothing about who answers: `Program.runIn` lets a `World` do it, which is a value.
-/

namespace DeclGraph

/-- What a program may ask for, by the form of the answer. -/
inductive Request : Type → Type
  /-- Whether something stands where a path means. -/
  | exists (path : Path) : Request (Except FileError Bool)
  /-- The octets of a file. -/
  | read (path : Path) : Request (Except FileError (List UInt8))
  /-- An empty file where nothing stands. -/
  | createExclusive (path : Path) : Request (Except FileError Unit)
  /-- A file opened to be written, which is empty then. -/
  | openEmpty (path : Path) : Request (Except FileError Unit)
  /-- A file with the given octets. -/
  | write (path : Path) (content : List UInt8) : Request (Except FileError Unit)
  /-- A file moved to another path. -/
  | replace (source target : Path) : Request (Except FileError Unit)
  /-- A file removed, if it is there. -/
  | unlinkIfThere (path : Path) : Request (Except FileError Unit)
  /-- A directory with those above it, which may be there already. -/
  | makeDirectories (path : Path) : Request (Except FileError Unit)
  /-- A source file parsed. -/
  | parse (source : String) (options : ParseOptions) : Request Attempt
  /-- A line of the log written. -/
  | log (line : LogLine) : Request Unit

/-- A computation that asks for things. -/
inductive Program (α : Type) : Type 1
  /-- Nothing more to ask: the result. -/
  | done (a : α)
  /-- A request, and how to go on with its answer. -/
  | ask {β : Type} (request : Request β) (next : β → Program α)

namespace Program

/-- One program after another. -/
def andThen {α β : Type} : Program α → (α → Program β) → Program β
  | done a, k => k a
  | ask request next, k => ask request fun b => (next b).andThen k

instance : Monad Program where
  pure := done
  bind := andThen

/-- The answer to a request. -/
def request {β : Type} (r : Request β) : Program β := ask r done

/-- Writes lines of the log. -/
def tell : List LogLine → Program Unit
  | [] => done ()
  | line :: rest => ask (.log line) fun _ => tell rest

end Program

end DeclGraph
