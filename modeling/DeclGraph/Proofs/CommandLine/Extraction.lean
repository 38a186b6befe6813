import DeclGraph.Proofs.Batch.Splitting
import DeclGraph.Proofs.CommandLine.Split

/-!
# Runs with and without a split

A run may be told to split its invocations.  It finds the same documents then as without, and
handles the same batch (`RunCommand.batchIn_eq`); only the invocations are split, which leaves the
tasks.  So what is built is the same, and the exit code (`RunCommand.exists_reply_of_unsplit`).
`Batch.builds_alike_split` says so of tasks, of batches and of commands.
-/

namespace DeclGraph

open FileSystem

theorem BatchReport.hasFailures_of_perm {report report' : BatchReport}
    (h : report'.outcomes.Perm report.outcomes) : report'.hasFailures = report.hasFailures := by
  rw [Bool.eq_iff_iff, hasFailures, hasFailures, List.any_eq_true, List.any_eq_true]
  simp only [h.mem_iff]

namespace RunCommand

variable {c : RunCommand} {w : World} {frontEnd : FrontEnd} {fs : FileSystem} {batch : Batch}
  {invs : List Invocation} {reply : CommandReply} {report : BatchReport}

/-- The command without inputs that get invocations of their own. -/
def unsplit (c : RunCommand) : RunCommand := { c with targets := [] }

/-- A split has no part in what batch is found. -/
theorem batchIn_eq (c : RunCommand) (fs : FileSystem) :
    c.batchIn fs = (c.unsplit.batchIn fs).map fun found => (found.1, c.chosen found.2) := by
  have hworkers : c.unsplit.workers = c.workers := rfl
  have htimeout : c.unsplit.timeout? = c.timeout? := rfl
  have hconfig : c.unsplit.config = c.config := rfl
  have hsettings : c.unsplit.settings = c.settings := rfl
  have hrules : c.unsplit.rulesIn fs = c.rulesIn fs := rfl
  unfold batchIn
  rw [hworkers, htimeout, hconfig, hsettings, hrules]
  split_ifs
  · rfl
  · rfl
  · cases fs.invocations (Path.ofText c.config) with
    | error e => rfl
    | ok invs =>
      cases c.rulesIn fs with
      | error e => rfl
      | ok rules =>
        dsimp only
        cases Batch.make? c.settings .standard rules with
        | error e => rfl
        | ok batch => rfl

/-- A command that finds a batch runs it, and replies to what that comes to. -/
theorem exists_runIn_run_eq (frontEnd : FrontEnd)
    (hexists : w.files.exists (Path.ofText c.config) = .ok true)
    (hbatch : c.batchIn w.files = .ok (batch, invs)) :
    ∃ w₁, c.run.runIn frontEnd w
        = (c.conclude ((batch.run invs).runIn frontEnd w).1).runIn frontEnd w₁ ∧
      w₁.files = ((batch.run invs).runIn frontEnd w).2.files ∧
      ∃ log, w₁ = ((batch.run invs).runIn frontEnd { w with log := log }).2 := by
  have hrun := c.runIn_run frontEnd w hexists
  rw [hbatch] at hrun
  obtain ⟨log, hrun⟩ := hrun
  -- what was told before is nothing to the batch
  have hsame : { w with log }.files = w.files := rfl
  obtain ⟨hanswer, hfiles⟩ := Program.runIn_of_files frontEnd (batch.run invs) hsame
  refine ⟨_, ?_, hfiles, log, rfl⟩
  rw [hrun, handle, Program.runIn_bind, hanswer]

/-- A command whose batch gives a report replies with it, and leaves the files of the batch. -/
theorem runIn_run_of_report (hexists : w.files.exists (Path.ofText c.config) = .ok true)
    (hbatch : c.batchIn w.files = .ok (batch, invs))
    (hreport : ((batch.run invs).runIn frontEnd w).1 = .ok report) :
    (c.run.runIn frontEnd w).1 = .ok (.ofReport report) ∧
      (c.run.runIn frontEnd w).2.files = ((batch.run invs).runIn frontEnd w).2.files := by
  obtain ⟨w₁, hrun, hfiles, -⟩ := exists_runIn_run_eq frontEnd hexists hbatch
  have hconclude := c.runIn_conclude frontEnd w₁ (.ok report)
  rw [hrun, hreport, hconclude]
  exact ⟨rfl, hfiles⟩

/-- A reply with an exit code below 2 is one with a report. -/
theorem exists_report_of_reply (hreply : (c.run.runIn frontEnd w).1 = .ok reply)
    (hcode : reply.exitCode ≠ 2) :
    ∃ batch invs directory report, w.files.exists (Path.ofText c.config) = .ok true ∧
      c.batchIn w.files = .ok (batch, invs) ∧ c.settings.outputDirectory = .ok directory ∧
      ((batch.run invs).runIn frontEnd w).1 = .ok report ∧ reply = .ofReport report := by
  have hends : (Command.run c).EndsWith frontEnd w (c.run.runIn frontEnd w).1 := c.endsWith_run
  rw [hreply] at hends
  obtain ⟨-, husable⟩ | - := hends
  obtain ⟨hexists, hbatch, hdirectory, -⟩ := husable hcode
  rename_i batch invs directory
  refine ⟨batch, invs, directory, ?_⟩
  cases hreport : ((batch.run invs).runIn frontEnd w).1 with
  | ok report =>
    obtain ⟨hanswer, -⟩ := runIn_run_of_report hexists hbatch hreport
    exact ⟨report, hexists, hbatch, hdirectory, rfl, Except.ok.inj (hreply.symm.trans hanswer)⟩
  | error e =>
    -- a failure is complained of, with an exit code of 2, or goes through
    obtain ⟨w₁, hrun, -⟩ := exists_runIn_run_eq frontEnd hexists hbatch
    have hconclude := c.runIn_conclude frontEnd w₁ (.error e)
    rw [hrun, hreport] at hreply
    dsimp only at hconclude
    split at hconclude
    · obtain ⟨complaint, log', hconclude⟩ := hconclude
      rw [hconclude] at hreply
      obtain rfl := Except.ok.inj hreply
      exact absurd rfl hcode
    · rw [hconclude] at hreply
      exact absurd hreply (by simp)

/-- A run that splits its invocations replies where one that does not replies with a report, with
the same exit code, and builds the same. -/
theorem exists_reply_of_unsplit {directory : Path} (htree : w.files.IsTree)
    (hbatch : c.unsplit.batchIn w.files = .ok (batch, invs))
    (hdirectory : c.settings.outputDirectory = .ok directory)
    (hartifacts : ((batch.tasks directory invs).map Task.artifact).Nodup)
    (hreply : (c.unsplit.run.runIn frontEnd w).1 = .ok reply) (hcode : reply.exitCode ≠ 2) :
    ∃ reply', (c.run.runIn frontEnd w).1 = .ok reply' ∧ reply'.exitCode = reply.exitCode ∧
      (c.unsplit.run.runIn frontEnd w).2.files.Same (c.run.runIn frontEnd w).2.files := by
  obtain ⟨batch, invs, directory, report, hexists, hfound, hplaced, hreport, rfl⟩ :=
    exists_report_of_reply hreply hcode
  obtain ⟨rfl, rfl⟩ := Prod.mk.inj (Except.ok.inj (hbatch.symm.trans hfound))
  obtain rfl := Except.ok.inj (hdirectory.symm.trans hplaced)
  obtain ⟨hsettings, hworkers⟩ := settings_of_batchIn hbatch
  have hextension : batch.settings.extension = "obj" := by
    rw [hsettings]
    rfl
  have happart : batch.KeepsApart directory invs (batch.pool directory invs w).files := by
    apply Batch.keepsApart_of_extension _ _ _ _ _ hartifacts
    all_goals
      rw [hextension]
      decide
  -- both commands handle the batch, and only what they tell before that is different
  have hexists' : w.files.exists (Path.ofText c.config) = .ok true := hexists
  have hbatch' : c.batchIn w.files = .ok (batch, c.chosen invs) := by
    rw [batchIn_eq, hbatch]
    rfl
  have hperm : (batch.tasks directory (c.chosen invs)).Perm (batch.tasks directory invs) := by
    unfold chosen
    split_ifs
    · exact .refl _
    · exact Batch.perm_tasks_split_of_nodup happart.nodup_tasks
  obtain ⟨report', hreport', houtcomes, hsame⟩ := Batch.exists_run_of_perm htree happart hperm
    (hsettings ▸ hworkers) (hsettings ▸ hdirectory) hreport
  obtain ⟨-, hfiles⟩ := runIn_run_of_report hexists hbatch hreport
  obtain ⟨hanswer', hfiles'⟩ := runIn_run_of_report hexists' hbatch' hreport'
  refine ⟨.ofReport report', hanswer', ?_, ?_⟩
  · unfold CommandReply.ofReport
    rw [BatchReport.hasFailures_of_perm houtcomes]
  · rw [hfiles, hfiles']
    exact hsame

end RunCommand

/-! ### What is built -/

namespace Batch

/-- **Splitting does not change what is built.**  Split invocations give the same tasks, each as
often as before if no invocation has a target twice.  If the tasks keep apart, as they do where the
paths of their artifacts are different and none is that of a lock or of a file that an artifact is
written to first, then a batch that gives a report for the invocations gives one when they are
split, with the same outcomes in another order, and leaves the same files.  A command that splits
what it handles leaves what it leaves without that. -/
theorem builds_alike_split (b : Batch) (directory : Path) (invs : List Invocation)
    (targets : List String) (frontEnd : FrontEnd) (w : World) :
    (∀ t, t ∈ b.tasks directory (Invocation.split invs targets) ↔ t ∈ b.tasks directory invs) ∧
    ((∀ inv ∈ invs, ∀ target ∈ targets, inv.inputs.count target ≤ 1) →
      (b.tasks directory (Invocation.split invs targets)).Perm (b.tasks directory invs)) ∧
    (b.settings.extension ≠ "" → '/' ∉ b.settings.extension.toList → b.settings.extension ≠ "." →
      ((b.tasks directory invs).map Task.artifact).Nodup →
      (∀ t ∈ b.tasks directory invs, ∀ u ∈ b.tasks directory invs,
        t.artifact ≠ lockPath u.artifact ∧ t.artifact ≠ tempPath u.artifact) →
      ∀ fs, b.KeepsApart directory invs fs) ∧
    (∀ report, 0 < b.settings.workers → w.files.IsTree →
      b.settings.outputDirectory = .ok directory →
      b.KeepsApart directory invs (w.files.makeDirectories directory true).1 →
      ((b.run invs).runIn frontEnd w).1 = .ok report →
      ∃ report', ((b.run (Invocation.split invs targets)).runIn frontEnd w).1 = .ok report' ∧
        report'.outcomes.Perm report.outcomes ∧
        ((b.run invs).runIn frontEnd w).2.files.Same
          ((b.run (Invocation.split invs targets)).runIn frontEnd w).2.files) ∧
    (∀ c : RunCommand, ∀ reply, w.files.IsTree → c.unsplit.batchIn w.files = .ok (b, invs) →
      c.settings.outputDirectory = .ok directory →
      ((b.tasks directory invs).map Task.artifact).Nodup →
      (c.unsplit.run.runIn frontEnd w).1 = .ok reply → reply.exitCode ≠ 2 →
      ∃ reply', (c.run.runIn frontEnd w).1 = .ok reply' ∧ reply'.exitCode = reply.exitCode ∧
        (c.unsplit.run.runIn frontEnd w).2.files.Same (c.run.runIn frontEnd w).2.files) := by
  refine ⟨fun t => mem_tasks_split, perm_tasks_split, keepsApart_of_paths, ?_, ?_⟩
  · intro report hworkers htree hdirectory happart hreport
    have hperm : (b.tasks directory (Invocation.split invs targets)).Perm (b.tasks directory invs) :=
      perm_tasks_split_of_nodup happart.nodup_tasks
    exact exists_run_of_perm htree happart hperm hworkers hdirectory hreport
  · intro c reply htree hbatch hdirectory hartifacts hreply hcode
    exact RunCommand.exists_reply_of_unsplit htree hbatch hdirectory hartifacts hreply hcode

/-- A run with two inputs of which the first gets an invocation of its own. -/
def splitFirst : RunCommand :=
  { CommandLine.runRules with config := "cl.json", targets := ["a.c"], rules? := none }

/-- The batch that the run finds. -/
def workBatch : Batch := ⟨splitFirst.settings, .standard, .standard, ⟨[]⟩⟩

/-- The output directory of the run. -/
def workDirectory : Path := ⟨.relative, ["obj"]⟩

/-- Two inputs are built in another order when the first of them is split off, and the same comes of
it. -/
theorem builds_alike_splitFirst :
    (Invocation.split [smallInvocation] ["a.c"]).map Invocation.inputs = [["b.c"], ["a.c"]] ∧
      (∀ inv ∈ [smallInvocation], ∀ target ∈ ["a.c"], inv.inputs.count target ≤ 1) ∧
      (workBatch.tasks workDirectory (Invocation.split [smallInvocation] ["a.c"])).Perm
        (workBatch.tasks workDirectory [smallInvocation]) ∧
      workBatch.KeepsApart workDirectory [smallInvocation]
        (CommandLine.twoInputs.files.makeDirectories workDirectory true).1 ∧
      splitFirst.unsplit.batchIn CommandLine.twoInputs.files = .ok (workBatch, [smallInvocation]) ∧
      ((workBatch.run [smallInvocation]).runIn Crew.findsNothing
          CommandLine.twoInputs).2.files.Same
        ((workBatch.run (Invocation.split [smallInvocation] ["a.c"])).runIn Crew.findsNothing
          CommandLine.twoInputs).2.files ∧
      (splitFirst.unsplit.run.runIn Crew.findsNothing CommandLine.twoInputs).2.files.Same
        (splitFirst.run.runIn Crew.findsNothing CommandLine.twoInputs).2.files := by
  have htree : CommandLine.twoInputs.files.IsTree :=
    .of_entries (by decide +kernel) (by decide +kernel)
  have hbatch : splitFirst.unsplit.batchIn CommandLine.twoInputs.files
      = .ok (workBatch, [smallInvocation]) := by decide +kernel
  have hartifacts :
      ((workBatch.tasks workDirectory [smallInvocation]).map Task.artifact).Nodup := by
    decide +kernel
  have honce : ∀ inv ∈ [smallInvocation], ∀ target ∈ ["a.c"], inv.inputs.count target ≤ 1 := by
    decide
  obtain ⟨-, hperm, hpaths, hrun, hcommand⟩ := builds_alike_split workBatch workDirectory
    [smallInvocation] ["a.c"] Crew.findsNothing CommandLine.twoInputs
  have happart := hpaths (by decide) (by decide) (by decide) hartifacts (by decide +kernel)
    (CommandLine.twoInputs.files.makeDirectories workDirectory true).1
  -- both the batch and the command come to their end
  obtain ⟨report, hreport⟩ : ∃ report, ((workBatch.run [smallInvocation]).runIn Crew.findsNothing
      CommandLine.twoInputs).1 = .ok report :=
    exists_eq_ok_of_isOk (by decide +kernel)
  obtain ⟨reply, hreply⟩ : ∃ reply, (splitFirst.unsplit.run.runIn Crew.findsNothing
      CommandLine.twoInputs).1 = .ok reply :=
    exists_eq_ok_of_isOk (by decide +kernel)
  have hcode : (splitFirst.unsplit.run.runIn Crew.findsNothing CommandLine.twoInputs).1.map
      (·.exitCode) = .ok 0 := by decide +kernel
  rw [hreply] at hcode
  have hzero : reply.exitCode = 0 := Except.ok.inj hcode
  obtain ⟨-, -, -, hsame⟩ := hrun report (by decide) htree rfl happart hreport
  obtain ⟨-, -, -, hsame'⟩ :=
    hcommand splitFirst reply htree hbatch rfl hartifacts hreply (by rw [hzero]; decide)
  exact ⟨by decide, honce, hperm honce, happart, hbatch, hsame, hsame'⟩

end Batch

end DeclGraph
