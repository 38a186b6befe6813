import DeclGraph.Batch.Outcome
import DeclGraph.Program.Basic
import DeclGraph.Report
import DeclGraph.Snapshot.Basic

/-!
# Phases of a file

A file of a batch goes from phase to phase.  In each phase but the last it waits for the answer to
one request, and the answer decides what is logged and which phase comes next (`Phase.next`).  The
artifact is looked for first; then it is claimed with a lock and looked for again; then the source
is parsed, and what comes of it is written beside the artifact and moved into its place.  Whatever
goes wrong on the way, a lock that was taken is given back.

`Phase.rank` falls with every answer, so every file comes to its end.
-/

namespace DeclGraph

/-- How a file ends: with an outcome, or with a failure that stops the batch. -/
abbrev Ending := Except Failure Outcome

/-- What is to be written of a file. -/
structure Dump where
  /-- The graph of the file. -/
  graph : Graph
  /-- The snapshot in it. -/
  root : Value
  /-- Milliseconds of the parse. -/
  parseMs : Int
  /-- The report of the file. -/
  report : List String

/-- What a file waits for. -/
inductive Phase
  /-- Whether the artifact is there. -/
  | looking
  /-- The lock. -/
  | claiming
  /-- Whether the artifact is there, with the lock taken. -/
  | rechecking
  /-- The lock given back, since the artifact is there. -/
  | yielding
  /-- The parse. -/
  | parsing
  /-- The file beside the artifact opened. -/
  | opening (dump : Dump)
  /-- The file beside the artifact written. -/
  | writing (dump : Dump) (text : String)
  /-- The file beside the artifact moved into its place. -/
  | replacing (dump : Dump)
  /-- The file beside the artifact removed, since something went wrong. -/
  | discarding (dump : Dump) (why : Failure)
  /-- The lock given back. -/
  | releasing (ending : Ending)
  /-- Nothing more. -/
  | finished (ending : Ending)

namespace Phase

/-- How far a phase is from the end. -/
def rank : Phase → Nat
  | looking => 10
  | claiming => 9
  | rechecking => 8
  | yielding => 1
  | parsing => 7
  | opening _ => 6
  | writing .. => 5
  | replacing _ => 4
  | discarding .. => 3
  | releasing _ => 2
  | finished _ => 0

end Phase

/-- What an answer leads to: lines of the log and the next phase. -/
structure Transition where
  /-- What is logged. -/
  log : List LogLine
  /-- The phase that comes next. -/
  phase : Phase

/-- What a phase waits for, and what each answer leads to. -/
inductive Next : Type 1
  /-- The file is done. -/
  | stop (ending : Ending)
  /-- A request, and what its answer leads to. -/
  | ask {β : Type} (request : Request β) (resume : β → Transition)

namespace Task

/-! ### Outcomes of a task -/

/-- The outcome of a task that had nothing to do. -/
def skipped (t : Task) : Outcome :=
  ⟨t.source, t.artifact, [.pending, .skipped], none, none, [], none⟩

/-- The outcome of a task whose parse took too long. -/
def timedOut (t : Task) (error : String) : Outcome :=
  ⟨t.source, t.artifact, [.pending, .parsing, .timedOut], none, none, [], some error⟩

/-- The outcome of a task whose parse failed. -/
def failedToParse (t : Task) (error : String) : Outcome :=
  ⟨t.source, t.artifact, [.pending, .parsing, .failed], none, none, [], some error⟩

/-- The outcome of a task whose source has errors. -/
def parseFailed (t : Task) (parseMs : Int) (report : List String) : Outcome :=
  ⟨t.source, t.artifact, [.pending, .parsing, .parseFailed, .done], some parseMs, none, report, none⟩

/-- The outcome of a task whose artifact was written. -/
def dumped (t : Task) (parseMs dumpMs : Int) (report : List String) : Outcome :=
  ⟨t.source, t.artifact, [.pending, .parsing, .parsed, .dumping, .done], some parseMs, some dumpMs,
    report, none⟩

/-- The outcome of a task whose artifact could not be written. -/
def failedToDump (t : Task) (parseMs : Int) (report : List String) (error : String) : Outcome :=
  ⟨t.source, t.artifact, [.pending, .parsing, .parsed, .dumping, .failed], some parseMs, none, report,
    some error⟩

/-! ### What answers lead to -/

/-- A task that finds its artifact claimed. -/
def claimedElsewhere (t : Task) : Transition :=
  ⟨[.info ("Parse skipped; artifact claimed elsewhere (file=" ++ t.source ++ " artifact="
    ++ t.artifact.text ++ ")")], .finished (.ok t.skipped)⟩

/-- The end of a task with an error that is no failure of the batch. -/
def failDump (t : Task) (parseMs : Int) (report : List String) (why : Failure) : Transition :=
  match why with
  | .rules e => ⟨[], .releasing (.error (.rules e))⟩
  | why =>
    if why.isForeseen then
      ⟨[.warning ("Dump failed (artifact=" ++ t.artifact.text ++ " error=" ++ why.message ++ ")")],
        .releasing (.ok (t.failedToDump parseMs report why.message))⟩
    else
      ⟨[.error ("Dump raised unexpectedly (artifact=" ++ t.artifact.text ++ " error_type="
          ++ why.label ++ ")")],
        .releasing (.ok (t.failedToDump parseMs report (why.label ++ ": " ++ why.message)))⟩

/-- The way on with a compilation without errors. -/
def startDump (t : Task) (c : Compilation) (parseMs : Int) (report : List String) : Transition :=
  let log := [LogLine.info ("Dump started (file=" ++ t.source ++ " artifact=" ++ t.artifact.text
    ++ ")")]
  let told := c.graph.snapshotLog c.root
  match c.graph.snapshot c.root with
  | .ok s => ⟨log ++ told, .opening ⟨s.graph, s.root, parseMs, report⟩⟩
  | .error e =>
    let failed := t.failDump parseMs report (.text e)
    ⟨log ++ told ++ failed.log, failed.phase⟩

/-- The milliseconds of a number of seconds, rounded to whole ones. -/
def milliseconds (seconds : Binary64) : Int := (seconds.mulNat 1000).round?.getD 0

/-- The way on with a compilation. -/
def report (t : Task) (s : BatchSettings) (c : Compilation) (parseMs : Int) : Transition :=
  let log := [LogLine.info ("Parse finished (file=" ++ t.source ++ " elapsed_ms="
    ++ Number.ofInt parseMs ++ ")")]
  match c.graph.describe c.root s.warnings s.info with
  | .error e => ⟨log, .releasing (.error (.text e))⟩
  | .ok lines =>
    let log := log ++ lines.map .info
    match c.graph.hasErrors c.root with
    | .error e => ⟨log, .releasing (.error (.text e))⟩
    | .ok true =>
      ⟨log ++ [.warning ("Parse reported errors; artifact not written (file=" ++ t.source ++ ")")],
        .releasing (.ok (t.parseFailed parseMs lines))⟩
    | .ok false =>
      let started := t.startDump c parseMs lines
      ⟨log ++ started.log, started.phase⟩

/-- The way on after a parse. -/
def afterParse (t : Task) (s : BatchSettings) (a : Attempt) : Transition :=
  let late (error : String) : Transition :=
    ⟨[.warning ("Parse timed out (file=" ++ t.source ++ " error=" ++ error ++ ")")],
      .releasing (.ok (t.timedOut error))⟩
  if s.isLate a.seconds then late s.lateText
  else match a.result with
    | .ok c => t.report s c (milliseconds a.seconds)
    | .error f =>
      match f.nature with
      | .timeout => late f.message
      | .refusal | .system =>
        ⟨[.warning ("Parse failed to run (file=" ++ t.source ++ " error=" ++ f.message ++ ")")],
          .releasing (.ok (t.failedToParse f.message))⟩
      | _ =>
        ⟨[.error ("Parse raised unexpectedly (file=" ++ t.source ++ " error_type=" ++ f.label
            ++ ")")],
          .releasing (.ok (t.failedToParse (f.label ++ ": " ++ f.message)))⟩

/-- The way on with the file beside the artifact open. -/
def afterOpening (rules : Rules) (d : Dump) : Transition :=
  match d.graph.dump rules d.root with
  | .ok text => ⟨[], .writing d text⟩
  | .error e => ⟨e.log, .discarding d (.ofEncoding e)⟩

end Task

namespace Phase

/-- What the phase of a task waits for, and what each answer leads to. -/
def next (b : Batch) (t : Task) : Phase → Next
  | looking => .ask (.exists t.artifact) fun
    | .ok true => ⟨[.debug ("Parse skipped (file=" ++ t.source ++ ")")], finished (.ok t.skipped)⟩
    | .ok false =>
      if t.artifact.name.isEmpty then ⟨[], finished (.error (.unnamed (.empty t.artifact)))⟩
      else ⟨[], claiming⟩
    | .error e => ⟨[], finished (.error (.file e))⟩
  | claiming => .ask (.createExclusive (lockPath t.artifact)) fun
    | .ok () => ⟨[], rechecking⟩
    | .error (.refused .exists _) => t.claimedElsewhere
    | .error e => ⟨[], finished (.error (.file e))⟩
  | rechecking => .ask (.exists t.artifact) fun
    | .ok true => ⟨[], yielding⟩
    | .ok false => ⟨[.info ("Parse started (file=" ++ t.source ++ ")")], parsing⟩
    | .error e => ⟨[], finished (.error (.file e))⟩
  | yielding => .ask (.unlinkIfThere (lockPath t.artifact)) fun
    | .ok () => t.claimedElsewhere
    | .error e => ⟨[], finished (.error (.file e))⟩
  | parsing => .ask (.parse t.source t.options) (t.afterParse b.settings)
  | opening d => .ask (.openEmpty (tempPath t.artifact)) fun
    | .ok () => Task.afterOpening b.rules d
    | .error e => ⟨[], discarding d (.file e)⟩
  | writing d text => .ask (.write (tempPath t.artifact) (Utf8.encode text)) fun
    | .ok () => ⟨[], replacing d⟩
    | .error e => ⟨[], discarding d (.file e)⟩
  | replacing d => .ask (.replace (tempPath t.artifact) t.artifact) fun
    | .ok () =>
      ⟨[.info ("Dump finished (artifact=" ++ t.artifact.text ++ " elapsed_ms=0)")],
        releasing (.ok (t.dumped d.parseMs 0 d.report))⟩
    | .error e => ⟨[], discarding d (.file e)⟩
  | discarding d why => .ask (.unlinkIfThere (tempPath t.artifact)) fun
    | .ok () => t.failDump d.parseMs d.report why
    | .error e => t.failDump d.parseMs d.report (.file e)
  | releasing ending => .ask (.unlinkIfThere (lockPath t.artifact)) fun
    | .ok () => ⟨[], finished ending⟩
    | .error e => ⟨[], finished (.error (.file e))⟩
  | finished ending => .stop ending

/-- An answer brings a phase nearer to the end. -/
def Falls (p : Phase) : Next → Prop
  | .stop _ => True
  | .ask _ resume => ∀ answer, (resume answer).phase.rank < p.rank

/-- The end of a dump that failed leaves the lock to be given back. -/
theorem rank_failDump (t : Task) (parseMs : Int) (report : List String) (why : Failure) :
    (t.failDump parseMs report why).phase.rank = 2 := by
  unfold Task.failDump
  split
  · rfl
  · split <;> rfl

/-- A dump that starts comes behind the parse. -/
theorem rank_startDump (t : Task) (c : Compilation) (parseMs : Int) (report : List String) :
    (t.startDump c parseMs report).phase.rank < 7 := by
  unfold Task.startDump
  dsimp only
  split
  · simp [rank]
  · rw [rank_failDump]; omega

/-- A report comes behind the parse. -/
theorem rank_report (t : Task) (s : BatchSettings) (c : Compilation) (parseMs : Int) :
    (t.report s c parseMs).phase.rank < 7 := by
  unfold Task.report
  dsimp only
  split
  · simp [rank]
  · split
    · simp [rank]
    · simp [rank]
    · exact rank_startDump ..

/-- What a parse leads to comes behind it. -/
theorem rank_afterParse (t : Task) (s : BatchSettings) (a : Attempt) :
    (t.afterParse s a).phase.rank < 7 := by
  unfold Task.afterParse
  dsimp only
  split
  · simp [rank]
  · split
    · exact rank_report ..
    · split <;> simp [rank]

/-- Every answer brings a file nearer to its end. -/
theorem falls_next (b : Batch) (t : Task) (p : Phase) : p.Falls (p.next b t) := by
  cases p with
  | looking =>
    rintro (e | _ | _)
    · simp [rank]
    · dsimp only; split <;> simp [rank]
    · simp [rank]
  | claiming =>
    intro answer
    dsimp only
    split <;> simp [rank, Task.claimedElsewhere]
  | rechecking => rintro (e | _ | _) <;> simp [rank]
  | yielding => rintro (e | _) <;> simp [rank, Task.claimedElsewhere]
  | parsing => exact rank_afterParse t b.settings
  | opening d =>
    rintro (e | _)
    · simp [rank]
    · simp only [Task.afterOpening]
      split <;> simp [rank]
  | writing d text => rintro (e | _) <;> simp [rank]
  | replacing d => rintro (e | _) <;> simp [rank]
  | discarding d why => rintro (e | _) <;> (dsimp only; rw [rank_failDump]; simp [rank])
  | releasing ending => rintro (e | _) <;> simp [rank]
  | finished ending => trivial

/-- Goes on from a phase to the end. -/
def run (b : Batch) (t : Task) (p : Phase) : Program Ending :=
  match _h : p.next b t with
  | .stop ending => .done ending
  | .ask request resume => .ask request fun answer =>
    (Program.tell (resume answer).log).andThen fun _ => run b t (resume answer).phase
termination_by p.rank
decreasing_by
  have falls := falls_next b t p
  rw [_h] at falls
  exact falls answer

end Phase

end DeclGraph
