import DeclGraph.Batch.Task

/-!
# Outcomes

What became of the files of a batch: the states that each went through, its timings, its report and
its error.  The status of an outcome is read off its states.
-/

namespace DeclGraph

/-- A state that a file goes through. -/
inductive FileState
  | pending
  | parsing
  | parseFailed
  | parsed
  | dumping
  | done
  | skipped
  | timedOut
  | failed
deriving DecidableEq, Repr

namespace FileState

/-- Every state. -/
def all : List FileState :=
  [.pending, .parsing, .parseFailed, .parsed, .dumping, .done, .skipped, .timedOut, .failed]

/-- The name of a state. -/
def name : FileState → String
  | .pending => "pending"
  | .parsing => "parsing"
  | .parseFailed => "parse_failed"
  | .parsed => "parsed"
  | .dumping => "dumping"
  | .done => "done"
  | .skipped => "skipped"
  | .timedOut => "timed_out"
  | .failed => "failed"

end FileState

/-- What became of a file. -/
inductive Status
  | dumped
  | skipped
  | parseFailed
  | timedOut
  | failed
deriving DecidableEq, Repr

namespace Status

/-- Every status, in the order of summaries. -/
def all : List Status := [.dumped, .skipped, .parseFailed, .timedOut, .failed]

/-- The name of a status. -/
def name : Status → String
  | .dumped => "dumped"
  | .skipped => "skipped"
  | .parseFailed => "parse_failed"
  | .timedOut => "timed_out"
  | .failed => "failed"

/-- Whether a file with the status counts as failed. -/
def isFailure : Status → Bool
  | .dumped | .skipped => false
  | .parseFailed | .timedOut | .failed => true

end Status

/-- What became of a file, and on which way. -/
structure Outcome where
  /-- The source file. -/
  source : String
  /-- Its artifact. -/
  artifact : Path
  /-- The states that it went through. -/
  states : List FileState
  /-- Milliseconds of the parse, if it came to an end. -/
  parseMs? : Option Int
  /-- Milliseconds of writing, if the artifact was written. -/
  dumpMs? : Option Int
  /-- The report of the file. -/
  report : List String
  /-- What went wrong, if something did. -/
  error? : Option String
deriving DecidableEq, Repr

namespace Outcome

/-- The status that the states stand for. -/
def status (o : Outcome) : Status :=
  if .skipped ∈ o.states then .skipped
  else if .parseFailed ∈ o.states then .parseFailed
  else if .timedOut ∈ o.states then .timedOut
  else if .failed ∈ o.states then .failed
  else .dumped

end Outcome

/-- The outcomes of a batch, in the order of its tasks. -/
structure BatchReport where
  /-- The outcomes. -/
  outcomes : List Outcome
deriving DecidableEq, Repr

namespace BatchReport

/-- How many files have a status. -/
def count (r : BatchReport) (status : Status) : Nat :=
  r.outcomes.countP fun o => o.status == status

/-- Whether a file failed. -/
def hasFailures (r : BatchReport) : Bool := r.outcomes.any fun o => o.status.isFailure

/-- The number of files with each status, as a line of text. -/
def countText (r : BatchReport) : String :=
  " ".intercalate (Status.all.map fun status =>
    status.name ++ "=" ++ Number.digits (r.count status))

end BatchReport

end DeclGraph
