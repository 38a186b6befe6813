import DeclGraph.Proofs.Batch.Sparing
import DeclGraph.Proofs.CommandLine.Extraction

/-!
# What replies tell

Whoever gives a command line acts on the exit code alone, so it has to tell the truth.  A run is
replied to with 0 if its batch came to a report without failures, with 1 if it came to one with
failures, and with 2 if there is no report.  The summary is printed in the first two cases, and
something is complained of in the third (`CommandReply.Tells`).

Where there is no batch to run nothing has been parsed and no file has changed
(`RunCommand.Truthful.quiet`).  That is not so of everything that ends with 2: making the output
directory can fail halfway, and rules that fit all declarations may not fit what a parser gives
(`CommandLine.run_halfway`).
-/

namespace DeclGraph

open FileSystem

/-! ### Whatever is answered -/

namespace Program

variable {α β : Type} {P : α → Prop}

/-- Whatever is answered, the result of a program has a property. -/
def Always (P : α → Prop) : Program α → Prop
  | done a => P a
  | ask _ next => ∀ answer, (next answer).Always P

theorem always_bind (p : Program β) {k : β → Program α} (h : ∀ b, (k b).Always P) :
    (p >>= k).Always P := by
  show (p.andThen k).Always P
  induction p with
  | done b => exact h b
  | ask request next ih => exact fun answer => ih answer

theorem Always.runIn {p : Program α} (h : p.Always P) (frontEnd : FrontEnd) (w : World) :
    P (p.runIn frontEnd w).1 := by
  induction p generalizing w with
  | done a => exact h
  | ask request next ih => exact ih _ (h _) _

end Program

/-! ### Clear replies -/

/-- A reply prints something unless its exit code is 2, and complains of something if it is. -/
structure CommandReply.IsClear (reply : CommandReply) : Prop where
  /-- What is printed. -/
  printed : reply.output ≠ "" ↔ reply.exitCode ≠ 2
  /-- What is complained of. -/
  complained : reply.complaint ≠ "" ↔ reply.exitCode = 2

/-- The reply is clear, if there is one. -/
def CommandEnding.IsClear (ending : CommandEnding) : Prop :=
  ∀ reply, ending = .ok reply → reply.IsClear

theorem BatchReport.summary_ne_empty (report : BatchReport) : report.summary ≠ "" := by
  intro h
  rw [summary, Summary.lines] at h
  simp only [List.cons_append, List.nil_append, List.map_cons, String.join_cons] at h
  -- the first line ends where the second one begins
  obtain ⟨h, -⟩ := String.append_eq_empty_iff.1 h
  obtain ⟨-, h⟩ := String.append_eq_empty_iff.1 h
  exact absurd h (by decide)

theorem BatchReport.exitCode_ofReport (report : BatchReport) :
    (CommandReply.ofReport report).exitCode = if report.hasFailures then 1 else 0 := rfl

theorem BatchReport.exitCode_ne_two (report : BatchReport) :
    (CommandReply.ofReport report).exitCode ≠ 2 := by
  rw [exitCode_ofReport]
  split <;> decide

namespace CommandEnding

theorem isClear_error (e : Failure) : IsClear (.error e) := fun _ h => absurd h (by simp)

theorem isClear_ofReport (report : BatchReport) : IsClear (.ok (.ofReport report)) := by
  intro reply h
  obtain rfl := Except.ok.inj h
  have hcode := report.exitCode_ne_two
  have houtput : (CommandReply.ofReport report).output ≠ "" := by
    dsimp only [CommandReply.ofReport]
    exact report.summary_ne_empty
  exact ⟨iff_of_true houtput hcode, iff_of_false (not_not.2 rfl) hcode⟩

theorem isClear_refusal {complaint : String} (h : complaint ≠ "") :
    IsClear (.ok (.refusal complaint)) := by
  intro reply hreply
  obtain rfl := Except.ok.inj hreply
  exact ⟨iff_of_false (not_not.2 rfl) (not_not.2 rfl), iff_of_true h rfl⟩

/-- A refusal is clear that complains in a line. -/
theorem isClear_line (complaint : String) : IsClear (.ok (.refusal (complaint ++ "\n"))) :=
  isClear_refusal fun h => absurd (String.append_eq_empty_iff.1 h).2 (by decide)

end CommandEnding

open CommandEnding

namespace RunCommand

variable (c : RunCommand)

theorem always_conclude (answer : Except Failure BatchReport) :
    (c.conclude answer).Always CommandEnding.IsClear := by
  cases answer with
  | ok report => exact isClear_ofReport report
  | error e =>
    cases e with
    | rules e => exact Program.always_bind _ fun _ => isClear_line _
    | file e =>
      dsimp only [conclude]
      split
      · exact Program.always_bind _ fun _ => isClear_line _
      · exact isClear_error _
    | invocations | unencodable | notText | longNumber | pattern | unnamed | text | noWorkers
    | noTime => exact isClear_error _

theorem always_runBatch (invs : List Invocation) (rules : Rules) :
    (c.runBatch invs rules).Always CommandEnding.IsClear := by
  have hconclude (p : Program (Except Failure BatchReport)) :
      (p >>= c.conclude).Always CommandEnding.IsClear :=
    Program.always_bind p fun answer => c.always_conclude answer
  unfold runBatch
  cases Batch.make? c.settings .standard rules with
  | error e =>
    split_ifs
    · exact Program.always_bind _ fun _ => c.always_conclude _
    · exact Program.always_bind _ fun _ => Program.always_bind _ fun _ => c.always_conclude _
  | ok batch =>
    split_ifs
    · exact Program.always_bind _ fun _ => hconclude _
    · exact Program.always_bind _ fun _ => Program.always_bind _ fun _ => hconclude _

theorem always_run : c.run.Always CommandEnding.IsClear := by
  unfold run
  refine Program.always_bind _ fun there => ?_
  match there with
  | .error e => exact isClear_error _
  | .ok false => exact Program.always_bind _ fun _ => isClear_line _
  | .ok true =>
    dsimp only
    split_ifs
    · exact Program.always_bind _ fun _ => isClear_refusal (by decide)
    · exact Program.always_bind _ fun _ => isClear_refusal (by decide)
    · refine Program.always_bind _ fun documents => ?_
      match documents with
      | .error e =>
        dsimp only
        split_ifs
        · exact Program.always_bind _ fun _ => isClear_line _
        · exact isClear_error _
      | .ok (invs, rules) => exact c.always_runBatch invs rules

end RunCommand

theorem SplitCommand.always_run (c : SplitCommand) : c.run.Always CommandEnding.IsClear := by
  unfold run
  refine Program.always_bind _ fun invs => ?_
  match invs with
  | .error e =>
    dsimp only
    split_ifs
    · exact Program.always_bind _ fun _ => isClear_line _
    · exact isClear_error _
  | .ok invs =>
    refine Program.always_bind _ fun _ => Program.always_bind _ fun stored => ?_
    match stored with
    | .error e =>
      dsimp only
      split_ifs
      · exact Program.always_bind _ fun _ => isClear_line _
      · exact isClear_error _
    | .ok () =>
      refine Program.always_bind _ fun _ reply h => ?_
      obtain rfl := Except.ok.inj h
      have hprinted : (Path.ofText c.output).text ++ "\n" ≠ "" := fun h =>
        absurd (String.append_eq_empty_iff.1 h).2 (by decide)
      exact ⟨iff_of_true hprinted (by simp), iff_of_false (by simp) (by simp)⟩

/-! ### Replies to reports -/

/-- A reply tells of the report that a batch came to, if it came to one. -/
structure CommandReply.Tells (Report : BatchReport → Prop) (reply : CommandReply) : Prop where
  /-- All files were dumped or skipped. -/
  zero : reply.exitCode = 0 ↔
    ∃ report, Report report ∧ ∀ o ∈ report.outcomes, o.status = .dumped ∨ o.status = .skipped
  /-- Some file was not. -/
  one : reply.exitCode = 1 ↔ ∃ report, Report report ∧
    ∃ o ∈ report.outcomes, o.status = .parseFailed ∨ o.status = .timedOut ∨ o.status = .failed
  /-- There is no report. -/
  two : reply.exitCode = 2 ↔ ∀ report, ¬ Report report
  /-- The summary is printed. -/
  summary : ∀ report, Report report → reply.output = report.summary
  /-- Something is printed if there is a report. -/
  printed : reply.output ≠ "" ↔ ∃ report, Report report
  /-- Something is complained of if there is none. -/
  complained : reply.complaint ≠ "" ↔ reply.exitCode = 2

theorem Status.isFailure_iff (s : Status) :
    s.isFailure = true ↔ s = .parseFailed ∨ s = .timedOut ∨ s = .failed := by
  cases s <;> decide

theorem Status.isFailure_eq_false_iff (s : Status) :
    s.isFailure = false ↔ s = .dumped ∨ s = .skipped := by
  cases s <;> decide

namespace CommandReply

variable {Report : BatchReport → Prop} {report : BatchReport} {reply : CommandReply}

/-- The reply to the only report there is tells of it. -/
theorem Tells.of_report (h : Report report)
    (hunique : ∀ report', Report report' → report' = report) : (ofReport report).Tells Report := by
  have hclear := CommandEnding.isClear_ofReport report _ rfl
  -- there is only one report to speak of
  have hexists {p : BatchReport → Prop} : (∃ report, Report report ∧ p report) ↔ p report := by
    constructor
    · rintro ⟨report', h', hp⟩
      rwa [← hunique report' h']
    · exact fun hp => ⟨report, h, hp⟩
  have hgood : report.hasFailures = false ↔
      ∀ o ∈ report.outcomes, o.status = .dumped ∨ o.status = .skipped := by
    simp only [BatchReport.hasFailures, List.any_eq_false, Bool.not_eq_true,
      Status.isFailure_eq_false_iff]
  have hbad : report.hasFailures = true ↔ ∃ o ∈ report.outcomes,
      o.status = .parseFailed ∨ o.status = .timedOut ∨ o.status = .failed := by
    simp only [BatchReport.hasFailures, List.any_eq_true, Status.isFailure_iff]
  have hcode := report.exitCode_ne_two
  refine ⟨?_, ?_, ?_, fun report' h' => ?_, ?_, hclear.complained⟩
  · rw [hexists, ← hgood, report.exitCode_ofReport]
    cases report.hasFailures <;> decide
  · rw [hexists, ← hbad, report.exitCode_ofReport]
    cases report.hasFailures <;> decide
  · exact iff_of_false hcode fun hnone => hnone report h
  · rw [hunique report' h', ofReport]
  · exact hclear.printed.trans (iff_of_true hcode ⟨report, h⟩)

/-- A clear reply with exit code 2 tells that there is no report. -/
theorem Tells.of_none (hnone : ∀ report, ¬ Report report) (hcode : reply.exitCode = 2)
    (hclear : reply.IsClear) : reply.Tells Report := by
  have hexists {p : BatchReport → Prop} : ¬ ∃ report, Report report ∧ p report :=
    fun ⟨report, h, _⟩ => hnone report h
  have hzero : reply.exitCode ≠ 0 := by rw [hcode]; decide
  have hone : reply.exitCode ≠ 1 := by rw [hcode]; decide
  refine ⟨iff_of_false hzero hexists, iff_of_false hone hexists, iff_of_true hcode hnone,
    fun report h => absurd h (hnone report), ?_, hclear.complained⟩
  exact hclear.printed.trans
    (iff_of_false (not_not.2 hcode) fun ⟨report, h⟩ => hnone report h)

end CommandReply

/-! ### Runs -/

namespace RunCommand

variable {c : RunCommand} {frontEnd : FrontEnd} {w w' : World} {batch : Batch}
  {invs : List Invocation} {report : BatchReport} {reply : CommandReply}

/-- A command finds a batch to run: its document is there, and all that it was given is good. -/
structure Finds (c : RunCommand) (fs : FileSystem) (batch : Batch) (invs : List Invocation) :
    Prop where
  /-- The document is there. -/
  there : fs.exists (Path.ofText c.config) = .ok true
  /-- There are a batch and invocations. -/
  found : c.batchIn fs = .ok (batch, invs)

/-- The batch that a command finds comes to a report. -/
def Completes (c : RunCommand) (frontEnd : FrontEnd) (w : World) (report : BatchReport) : Prop :=
  ∃ batch invs, c.Finds w.files batch invs ∧ ((batch.run invs).runIn frontEnd w).1 = .ok report

/-- Why there is a complaint about a batch that was run. -/
inductive Complains (c : RunCommand) (Given : Compilation → Prop) : Failure → CommandReply → Prop
  /-- The system has refused something. -/
  | refused {e : FileError} (system : e.isFromSystem = true) : Complains c Given (.file e)
    (.refusal ("Output directory unusable: " ++ c.objectDirectory ++ "\n"))
  /-- The rules do not fit a compilation that was given, which is none of declarations. -/
  | misfit {e : RulesError} {compilation : Compilation} (given : Given compilation)
    (undeclared : ¬ compilation.graph.IsDeclared) : Complains c Given (.rules e)
    (.refusal ("Invalid configuration: " ++ e.message ++ "\n"))

/-- The reply to a run tells the truth. -/
structure Truthful (c : RunCommand) (frontEnd : FrontEnd) (w : World) (reply : CommandReply)
    (w' : World) : Prop where
  /-- It tells of the report that the batch has come to. -/
  tells : reply.Tells (c.Completes frontEnd w)
  /-- Where there is no batch to run, nothing was parsed and no file has changed. -/
  quiet : (∀ batch invs, ¬ c.Finds w.files batch invs) →
    w'.files = w.files ∧ w'.calls = w.calls
  /-- Where the output directory cannot be made, nothing was parsed, and at most directories on the
  way to it are new. -/
  unmade : ∀ batch invs directory, c.Finds w.files batch invs →
    c.settings.outputDirectory = .ok directory →
    (w.files.makeDirectories directory true).2 ≠ .ok () →
    reply.exitCode = 2 ∧ w'.calls = w.calls ∧ Grows directory w.files w'.files
  /-- A complaint about a batch that was run is about what it has failed with. -/
  failed : ∀ batch invs, c.Finds w.files batch invs → reply.exitCode = 2 →
    ∃ directory e, c.settings.outputDirectory = .ok directory ∧
      ((batch.run invs).runIn frontEnd w).1 = .error e ∧
      c.Complains (batch.Gives directory invs frontEnd) e reply
  /-- It is no different when many workers share the batch. -/
  anyOrder : ∀ batch invs directory p reply', c.Finds w.files batch invs →
    Pool.Reaches batch (batch.pool directory invs w) p →
    ((c.conclude p.result).runIn frontEnd p.world).1 = .ok reply' →
    reply'.Tells (p.result = .ok ·) ∧ ∀ e, p.result = .error e →
      c.Complains (fun compilation => ∃ v, .taken v ∈ p.jobs ∧ v.compilation? = some compilation)
        e reply'

theorem Finds.unique {fs : FileSystem} {batch' : Batch} {invs' : List Invocation}
    (h : c.Finds fs batch invs) (h' : c.Finds fs batch' invs') : batch' = batch ∧ invs' = invs :=
  Prod.mk.inj (Except.ok.inj (h'.found.symm.trans h.found))

theorem Completes.unique {report' : BatchReport} (h : c.Completes frontEnd w report)
    (h' : c.Completes frontEnd w report') : report' = report := by
  obtain ⟨batch, invs, hfinds, hreport⟩ := h
  obtain ⟨batch', invs', hfinds', hreport'⟩ := h'
  obtain ⟨rfl, rfl⟩ := hfinds.unique hfinds'
  exact Except.ok.inj (hreport'.symm.trans hreport)

/-- The rules of a batch that a command finds were accepted. -/
theorem isAccepted_of_batchIn {fs : FileSystem} (h : c.batchIn fs = .ok (batch, invs)) :
    batch.rules.IsAccepted := by
  have hstandard : Rules.standard.IsAccepted := by
    have hmake : Rules.make? Rules.standardBlacklist Rules.standardWhitelists Rules.standardKinds
        = .ok Rules.standard := by decide +kernel
    exact .made hmake
  have hfile {path : Path} {rules : Rules} (hrules : fs.rules path = .ok rules) :
      rules.IsAccepted := by
    obtain ⟨log, hload⟩ := Rules.runIn_load default (.ofFiles fs) path
    exact .loaded ((congrArg Prod.fst hload).trans hrules)
  obtain ⟨-, rules, filter, hrules, rfl⟩ := exists_eq_of_batchIn h
  rcases c.rulesIn_eq fs with heq | ⟨path, -, heq⟩
  · obtain rfl := Except.ok.inj (hrules.symm.trans heq)
    exact hstandard
  · exact hfile (heq.symm.trans hrules)

/-- A complaint about a batch is about what it has failed with. -/
theorem complains_of_conclude {Given : Compilation → Prop} {e : Failure}
    (h : ((c.conclude (.error e)).runIn frontEnd w).1 = .ok reply)
    (hmisfit : ∀ r, e = .rules r →
      ∃ compilation, Given compilation ∧ ¬ compilation.graph.IsDeclared) :
    c.Complains Given e reply := by
  cases e with
  | rules r =>
    obtain ⟨compilation, hgiven, hundeclared⟩ := hmisfit r rfl
    rw [conclude, Program.runIn_bind] at h
    obtain rfl := Except.ok.inj h
    exact .misfit hgiven hundeclared
  | file e =>
    dsimp only [conclude] at h
    split at h
    · next hsystem =>
      rw [Program.runIn_bind] at h
      obtain rfl := Except.ok.inj h
      exact .refused hsystem
    · exact absurd h (by simp)
  | invocations | unencodable | notText | longNumber | pattern | unnamed | text | noWorkers
  | noTime => exact absurd h (by simp [conclude, Failure.isFromSystem])

/-- What a command replies to a batch tells of its report. -/
theorem tells_of_conclude {answer : Except Failure BatchReport}
    (h : ((c.conclude answer).runIn frontEnd w).1 = .ok reply) :
    reply.Tells (answer = .ok ·) := by
  cases answer with
  | ok report =>
    obtain rfl := Except.ok.inj h
    exact .of_report rfl fun report' h' => (Except.ok.inj h').symm
  | error e =>
    have hclear := (c.always_conclude (.error e)).runIn frontEnd w reply h
    refine .of_none (fun report h' => absurd h' (by simp)) ?_ hclear
    have hconclude := c.runIn_conclude frontEnd w (.error e)
    dsimp only at hconclude
    split at hconclude
    · obtain ⟨complaint, log, hconclude⟩ := hconclude
      rw [hconclude] at h
      obtain rfl := Except.ok.inj h
      rfl
    · rw [hconclude] at h
      exact absurd h (by simp)

/-- Replying to a batch changes nothing but the log. -/
theorem same_of_conclude (c : RunCommand) (frontEnd : FrontEnd) (w : World)
    (answer : Except Failure BatchReport) :
    ((c.conclude answer).runIn frontEnd w).2.files = w.files ∧
      ((c.conclude answer).runIn frontEnd w).2.calls = w.calls := by
  have hconclude := c.runIn_conclude frontEnd w answer
  split at hconclude
  · rw [hconclude]
    exact ⟨rfl, rfl⟩
  · split at hconclude
    · obtain ⟨complaint, log, hconclude⟩ := hconclude
      rw [hconclude]
      exact ⟨rfl, rfl⟩
    · rw [hconclude]
      exact ⟨rfl, rfl⟩

section

variable (hreply : c.run.runIn frontEnd w = (.ok reply, w'))

include hreply

theorem tells_of_run : reply.Tells (c.Completes frontEnd w) := by
  have hanswer := congrArg Prod.fst hreply
  by_cases hcompletes : ∃ report, c.Completes frontEnd w report
  · obtain ⟨report, hcompletes⟩ := hcompletes
    obtain ⟨batch, invs, hfinds, hreport⟩ := hcompletes
    obtain ⟨hdone, -⟩ := runIn_run_of_report hfinds.there hfinds.found hreport
    obtain rfl := Except.ok.inj (hanswer.symm.trans hdone)
    exact .of_report ⟨batch, invs, hfinds, hreport⟩ fun report' h' =>
      Completes.unique ⟨batch, invs, hfinds, hreport⟩ h'
  · refine .of_none (not_exists.1 hcompletes) ?_ (c.always_run.runIn frontEnd w reply hanswer)
    by_contra hcode
    obtain ⟨batch, invs, -, report, hexists, hfound, -, hreport, -⟩ :=
      exists_report_of_reply hanswer hcode
    exact hcompletes ⟨report, batch, invs, ⟨hexists, hfound⟩, hreport⟩

/-- Where there is no batch to run, the reply has changed nothing but the log. -/
theorem same_of_run (hnone : ∀ batch invs, ¬ c.Finds w.files batch invs) :
    w'.files = w.files ∧ w'.calls = w.calls := by
  -- every way to stop before the batch leaves all but the log
  have hlog {ending : CommandEnding} {log : List LogLine}
      (h : c.run.runIn frontEnd w = (ending, { w with log := log })) :
      w'.files = w.files ∧ w'.calls = w.calls := by
    obtain ⟨-, rfl⟩ := Prod.mk.inj (hreply.symm.trans h)
    exact ⟨rfl, rfl⟩
  cases hexists : w.files.exists (Path.ofText c.config) with
  | error e => exact hlog (c.runIn_run_of_exists_error frontEnd w hexists)
  | ok there =>
    cases there with
    | false =>
      obtain ⟨complaint, log, hrun⟩ := c.runIn_run_of_absent frontEnd w hexists
      exact hlog hrun
    | true =>
      have hrun := c.runIn_run frontEnd w hexists
      cases hbatch : c.batchIn w.files with
      | ok found => exact absurd ⟨hexists, hbatch⟩ (hnone found.1 found.2)
      | error e =>
        rw [hbatch] at hrun
        dsimp only at hrun
        split at hrun
        · obtain ⟨complaint, log, hrun⟩ := hrun
          exact hlog hrun
        · obtain ⟨log, hrun⟩ := hrun
          exact hlog hrun

/-- Where the output directory cannot be made, nothing is parsed. -/
theorem unmade_of_run (hfinds : c.Finds w.files batch invs) {directory : Path}
    (hdirectory : c.settings.outputDirectory = .ok directory)
    (hunmade : (w.files.makeDirectories directory true).2 ≠ .ok ()) :
    reply.exitCode = 2 ∧ w'.calls = w.calls ∧ Grows directory w.files w'.files := by
  obtain ⟨w₁, hrun, -, log, hw₁⟩ := exists_runIn_run_eq frontEnd hfinds.there hfinds.found
  have hbatch : batch.settings.outputDirectory = .ok directory := by
    rw [(settings_of_batchIn hfinds.found).1, hdirectory]
  have hgrows := makeDirectories_grows w.files directory true
  -- the batch stops at the directory, with no task begun
  rcases hmake : w.files.makeDirectories directory true with ⟨files, e | u⟩
  · have hfailed (log : List LogLine) : (batch.run invs).runIn frontEnd { w with log := log }
        = (.error (.file e), ⟨files, log, w.calls⟩) :=
      Batch.runIn_run_of_refused hbatch hmake
    rw [hmake] at hgrows
    rw [hfailed] at hw₁
    subst hw₁
    have hanswer : ((batch.run invs).runIn frontEnd w).1 = .error (.file e) :=
      congrArg Prod.fst (hfailed w.log)
    rw [hanswer, hreply] at hrun
    have htells := tells_of_conclude (congrArg Prod.fst hrun).symm
    obtain ⟨hfiles, hcalls⟩ :=
      c.same_of_conclude frontEnd ⟨files, log, w.calls⟩ (.error (.file e))
    rw [← congrArg Prod.snd hrun] at hfiles hcalls
    refine ⟨htells.two.2 fun report h => absurd h (by simp), hcalls, ?_⟩
    rwa [show w'.files = files from hfiles]
  · exact absurd (congrArg Prod.snd hmake) hunmade

/-- A complaint about a batch that was run is about what it has failed with. -/
theorem complains_of_run (hfinds : c.Finds w.files batch invs) (hcode : reply.exitCode = 2) :
    ∃ directory e, c.settings.outputDirectory = .ok directory ∧
      ((batch.run invs).runIn frontEnd w).1 = .error e ∧
      c.Complains (batch.Gives directory invs frontEnd) e reply := by
  obtain ⟨w₁, hrun, -⟩ := exists_runIn_run_eq frontEnd hfinds.there hfinds.found
  rw [hreply] at hrun
  have hanswer := (congrArg Prod.fst hrun).symm
  obtain ⟨hsettings, hworkers⟩ := settings_of_batchIn hfinds.found
  cases hbatch : ((batch.run invs).runIn frontEnd w).1 with
  | ok report =>
    rw [hbatch] at hanswer
    exact absurd rfl ((tells_of_conclude hanswer).two.1 hcode report)
  | error e =>
    rw [hbatch] at hanswer
    -- without a name for the directory the failure goes through and there is no reply
    cases hdirectory : c.settings.outputDirectory with
    | error unnamed =>
      rw [← hsettings] at hdirectory
      rw [Batch.runIn_run_of_unnamed hdirectory] at hbatch
      obtain rfl := Except.error.inj hbatch
      exact absurd hanswer (by simp [conclude, Failure.isFromSystem])
    | ok directory =>
      refine ⟨directory, e, rfl, rfl, complains_of_conclude hanswer fun r hr => ?_⟩
      rw [hr] at hbatch
      exact Batch.exists_undeclared_of_run (isAccepted_of_batchIn hfinds.found)
        (by rwa [hsettings]) (by rw [hsettings, hdirectory]) hbatch

theorem truthful_of_run : c.Truthful frontEnd w reply w' where
  tells := tells_of_run hreply
  quiet := same_of_run hreply
  unmade _ _ _ hfinds hdirectory hunmade := unmade_of_run hreply hfinds hdirectory hunmade
  failed _ _ hfinds hcode := complains_of_run hreply hfinds hcode
  anyOrder batch invs directory p reply' hfinds hreach h := by
    refine ⟨tells_of_conclude h, fun e he => ?_⟩
    rw [he] at h
    refine complains_of_conclude h fun r hr => ?_
    rw [hr] at he
    obtain ⟨v, compilation, hv, hcompilation, hundeclared⟩ :=
      Pool.exists_undeclared_of_result (isAccepted_of_batchIn hfinds.found) hreach he
    exact ⟨compilation, ⟨v, hv, hcompilation⟩, hundeclared⟩

end

end RunCommand

/-! ### Splits -/

namespace SplitCommand

variable {c : SplitCommand} {frontEnd : FrontEnd} {w w' : World} {reply : CommandReply}

/-- The reply to a split tells the truth. -/
structure Truthful (c : SplitCommand) (w : World) (reply : CommandReply) (w' : World) : Prop where
  /-- All went well if there are invocations and they were written. -/
  zero : reply.exitCode = 0 ↔ (Command.split c).IsUsable w
  /-- Otherwise the reply is a refusal. -/
  two : reply.exitCode = 2 ↔ ¬ (Command.split c).IsUsable w
  /-- It prints something if all went well, and complains of something otherwise. -/
  clear : reply.IsClear
  /-- Where there are no invocations no file has changed. -/
  quiet : (∀ invs, w.files.invocations (Path.ofText c.config) ≠ .ok invs) → w'.files = w.files
  /-- Where they cannot be written at most directories on the way to the document are new. -/
  unwritten : reply.exitCode = 2 → Grows (Path.ofText c.output).parent w.files w'.files
  /-- Nothing is parsed. -/
  calls : w'.calls = w.calls

/-- Where a text cannot be written at most directories on the way to it are new. -/
theorem grows_of_writeText {fs files : FileSystem} {path : Path} {text : String} {e : Failure}
    (h : fs.writeText path text = (files, .error e)) : Grows path.parent fs files := by
  have hgrows := makeDirectories_grows fs path.parent true
  unfold writeText at h
  split at h
  · next hmake =>
    obtain ⟨rfl, -⟩ := Prod.mk.inj h
    rwa [hmake] at hgrows
  · next hmake =>
    split at h
    · obtain ⟨rfl, -⟩ := Prod.mk.inj h
      rwa [hmake] at hgrows
    · exact absurd (Prod.mk.inj h).2 (by simp)

/-- A split that cannot write its document is not usable. -/
theorem not_isUsable_of_error {e : Failure}
    (h : ∀ invs, w.files.invocations (Path.ofText c.config) = .ok invs →
      (w.files.writeText (Path.ofText c.output) (Invocation.listToText (c.chosen invs))).2
        = .error e) : ¬ (Command.split c).IsUsable w := by
  rintro ⟨⟩
  rename_i invs hfound hwritten
  exact absurd ((h invs hfound).symm.trans hwritten) (by simp)

theorem truthful_of_run (hreply : c.run.runIn frontEnd w = (.ok reply, w')) :
    c.Truthful w reply w' := by
  have hclear := c.always_run.runIn frontEnd w reply (congrArg Prod.fst hreply)
  have hrun := c.runIn_run frontEnd w
  have hrefused {complaint : String} {files : FileSystem} {log : List LogLine}
      (h : c.run.runIn frontEnd w = (.ok (.refusal complaint), ⟨files, log, w.calls⟩))
      (hunusable : ¬ (Command.split c).IsUsable w)
      (hquiet : (∀ invs, w.files.invocations (Path.ofText c.config) ≠ .ok invs) →
        files = w.files) (hgrows : Grows (Path.ofText c.output).parent w.files files) :
      c.Truthful w reply w' := by
    obtain ⟨hanswer, rfl⟩ := Prod.mk.inj (hreply.symm.trans h)
    obtain rfl := Except.ok.inj hanswer
    exact ⟨iff_of_false (by simp [CommandReply.refusal]) hunusable, iff_of_true rfl hunusable,
      hclear, hquiet, fun _ => hgrows, rfl⟩
  have hfailed {e : Failure} {w₁ : World} (h : c.run.runIn frontEnd w = (.error e, w₁)) :
      c.Truthful w reply w' :=
    absurd (Prod.mk.inj (hreply.symm.trans h)).1 (by simp)
  cases hinvs : w.files.invocations (Path.ofText c.config) with
  | error e =>
    rw [hinvs] at hrun
    dsimp only at hrun
    split at hrun
    · obtain ⟨complaint, log, hrun⟩ := hrun
      have hunusable : ¬ (Command.split c).IsUsable w :=
        not_isUsable_of_error (e := e) fun invs hok => absurd (hinvs.symm.trans hok) (by simp)
      exact hrefused hrun hunusable (fun _ => rfl) (.refl _ _)
    · obtain ⟨log, hrun⟩ := hrun
      exact hfailed hrun
  | ok invs =>
    rw [hinvs] at hrun
    dsimp only at hrun
    rcases hwrite : w.files.writeText (Path.ofText c.output)
      (Invocation.listToText (c.chosen invs)) with ⟨files, answer⟩
    rw [hwrite] at hrun
    cases answer with
    | ok u =>
      obtain ⟨log, hrun⟩ := hrun
      obtain ⟨hanswer, rfl⟩ := Prod.mk.inj (hreply.symm.trans hrun)
      obtain rfl := Except.ok.inj hanswer
      have husable : (Command.split c).IsUsable w := .split hinvs (congrArg Prod.snd hwrite)
      exact ⟨iff_of_true rfl husable, iff_of_false (by simp) (not_not.2 husable), hclear,
        fun hnone => absurd hinvs (hnone invs), fun hcode => absurd hcode (by simp), rfl⟩
    | error e =>
      dsimp only at hrun
      split at hrun
      · obtain ⟨complaint, log, hrun⟩ := hrun
        have hunusable : ¬ (Command.split c).IsUsable w :=
          not_isUsable_of_error (e := e) fun invs' hok => by
            obtain rfl := Except.ok.inj (hinvs.symm.trans hok)
            exact congrArg Prod.snd hwrite
        exact hrefused hrun hunusable (fun hnone => absurd hinvs (hnone invs))
          (grows_of_writeText hwrite)
      · obtain ⟨log, hrun⟩ := hrun
        exact hfailed hrun

end SplitCommand

/-! ### Command lines -/

namespace CommandLine

/-- The reply to a command line tells the truth. -/
inductive Truthful (frontEnd : FrontEnd) (w : World) (arguments : List String)
    (reply : CommandReply) (w' : World) : Prop
  /-- A command line that makes no command is refused without a complaint, and nothing is done. -/
  | rejected (none : Command.ofArguments? arguments = none) (refused : reply = .refusal "")
    (files : w'.files = w.files) (calls : w'.calls = w.calls)
  /-- It is a run. -/
  | run {c : RunCommand} (given : Command.ofArguments? arguments = some (.run c))
    (truthful : c.Truthful frontEnd w reply w')
  /-- It is a split. -/
  | split {c : SplitCommand} (given : Command.ofArguments? arguments = some (.split c))
    (truthful : c.Truthful w reply w')

/-- **Exit codes tell the truth.**  Whatever the arguments, the files and the front end are: a run
is replied to with 0 or 1 if its batch came to a report, without failures or with some, and with 2
otherwise; the summary is printed in the first two cases, and something is complained of in the
third.  Where the arguments or a document of the configuration leave nothing to run, nothing was
parsed and no file has changed. -/
theorem truthful_of_reply {frontEnd : FrontEnd} {w w' : World} {arguments : List String}
    {reply : CommandReply} (h : (run arguments).runIn frontEnd w = (.ok reply, w')) :
    Truthful frontEnd w arguments reply w' := by
  unfold run at h
  split at h
  · next hnone =>
    rw [Program.runIn_bind, Program.runIn_tell] at h
    obtain ⟨hanswer, rfl⟩ := Prod.mk.inj h
    exact .rejected hnone (Except.ok.inj hanswer).symm rfl rfl
  · next c hgiven => exact .run hgiven (c.truthful_of_run h)
  · next c hgiven => exact .split hgiven (c.truthful_of_run h)

/-- A run with two inputs for which no parse succeeds. -/
theorem truthful_twoInputs :
    ∃ reply w', (run (runWith "cl.json" [])).runIn (fun _ _ => default) twoInputs
        = (.ok reply, w') ∧ reply.exitCode = 1 ∧
      Truthful (fun _ _ => default) twoInputs (runWith "cl.json" []) reply w' := by
  have hcode : ((run (runWith "cl.json" [])).runIn (fun _ _ => default) twoInputs).1.map
      (·.exitCode) = .ok 1 := by decide +kernel
  rcases hrun : (run (runWith "cl.json" [])).runIn (fun _ _ => default) twoInputs with
    ⟨e | reply, w'⟩
  · rw [hrun] at hcode
    exact absurd hcode (by simp [Except.map])
  · rw [hrun] at hcode
    exact ⟨reply, w', rfl, Except.ok.inj hcode, truthful_of_reply hrun⟩

/-- A run whose output directory leads through the document of its configuration. -/
def throughDocument : List String :=
  ["run", "--config", "cl.json", "--src-dir", "src", "--obj-dir", "d/../cl.json"]

/-- A working directory with rules that write nothing but the names of typedefs. -/
def namingTypedefs : World :=
  .ofFiles ⟨[(["work"], .directory),
    (["work", "cl.json"], .file (Utf8.encode "[\x7b\"input\": [\"a.c\"]\x7d]")),
    (["work", "rules.json"],
      .file (Utf8.encode "\x7b\"whitelists\": \x7b\"typedef\": [\"name\"]\x7d\x7d"))],
    ["work"]⟩

/-- A front end that finds a typedef without a name. -/
def findsNameless : FrontEnd := fun _ _ =>
  ⟨.zero false, .ok ⟨⟨#[.make .compilation [("typedefs", .list [.node 1])],
    ⟨.custom "Odd" (some "typedef"), [("x", .int 1)]⟩]⟩, .node 0⟩⟩

/-- Not everything with an exit code of 2 is complained of or leaves all as it was: who asks for
help is told nothing, an output directory may be made halfway, and rules may turn out not to fit
what a parser gives. -/
theorem run_halfway :
    ((run ["run", "--help"]).runIn (fun _ _ => default) twoInputs).1 = .ok (.refusal "") ∧
      ((run throughDocument).runIn (fun _ _ => default) twoInputs).1
        = .ok (.refusal "Output directory unusable: d/../cl.json\n") ∧
      twoInputs.files.get? ["work", "d"] = none ∧
      ((run throughDocument).runIn (fun _ _ => default) twoInputs).2.files.get? ["work", "d"]
        = some .directory ∧
      ((run (runWith "cl.json" ["--rules", "rules.json"])).runIn findsNameless namingTypedefs).1
        = .ok (.refusal
          "Invalid configuration: Whitelist for 'typedef' names missing field 'name'.\n") ∧
      namingTypedefs.calls = [] ∧
      ((run (runWith "cl.json" ["--rules", "rules.json"])).runIn findsNameless
        namingTypedefs).2.calls.map (·.source) = ["src/a.c"] := by
  refine ⟨by decide +kernel, by decide +kernel, by decide +kernel, by decide +kernel,
    by decide +kernel, rfl, ?_⟩
  decide +kernel

end CommandLine

end DeclGraph
