import DeclGraph.Batch.Phase

/-!
# Running a batch

`Batch.run` makes the output directory and handles the tasks one after another.  A failure that is
no outcome stops the batch in the end, and the first one counts; the tasks behind it are still
handled, unless it says that the rules do not fit, which no later task could mend.
-/

namespace DeclGraph

namespace Batch

/-- Handles a task from its start to its end. -/
def process (b : Batch) (t : Task) : Program Ending := Phase.looking.run b t

/-- The endings of tasks handled one after another, up to a failure of the rules that comes before
any other failure; `sound` says that there was no failure yet. -/
def processAll (b : Batch) (sound : Bool) : List Task → Program (List Ending)
  | [] => return []
  | t :: rest => do
    let ending ← b.process t
    match ending with
    | .error (.rules e) =>
      if sound then return [.error (.rules e)]
      else return ending :: (← b.processAll false rest)
    | .error _ => return ending :: (← b.processAll false rest)
    | .ok _ => return ending :: (← b.processAll sound rest)

/-- The report of the endings, or the first failure among them. -/
def collect (endings : List Ending) : Except Failure BatchReport :=
  (endings.mapM id).map fun outcomes => ⟨outcomes⟩

/-- Handles the inputs of invocations. -/
def run (b : Batch) (invs : List Invocation) : Program (Except Failure BatchReport) := do
  match b.settings.outputDirectory with
  | .error e => return .error (.unnamed e)
  | .ok directory =>
    match ← Program.request (.makeDirectories directory) with
    | .error e => return .error (.file e)
    | .ok () =>
      let plans := b.plans directory invs
      let tasks := b.tasks directory invs
      Program.tell (plans.flatMap Plan.log)
      Program.tell [.info ("Batch started (files=" ++ Number.digits tasks.length ++ " workers="
        ++ Number.ofInt b.settings.workers ++ " output_dir=" ++ directory.text ++ ")")]
      match collect (← b.processAll true tasks) with
      | .error e => return .error e
      | .ok report =>
        Program.tell [.info ("Batch finished (" ++ report.countText ++ ")")]
        return .ok report

end Batch

end DeclGraph
