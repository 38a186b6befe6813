import DeclGraph.Proofs.Batch.Escape
import DeclGraph.Proofs.CommandLine.Documents

/-!
# How commands end

A command line is replied to with an exit code of at most 2, and with one below 2 only if all that
it was given was usable (`Command.IsUsable`).  Some failures are foreseen nowhere and go through
instead of a reply: `Command.Escapes` lists them.  `CommandLine.ends` says that there are no others,
whatever the arguments, the files and the front end are, and in whatever order the workers of a batch
take their steps.

Octets that are no text are one of them, though they make a document as unusable as any
(`CommandLine.run_undecodable`).
-/

namespace DeclGraph

open FileSystem

/-! ### What stands in the way of a command -/

/-- Nothing stands in the way of a command: its documents can be read and make sense, and it can
write where it has to. -/
inductive Command.IsUsable (w : World) : Command → Prop
  /-- There is a batch, and a directory for its artifacts. -/
  | run {c : RunCommand} {batch : Batch} {invs : List Invocation} {directory : Path}
    (there : w.files.exists (Path.ofText c.config) = .ok true)
    (found : c.batchIn w.files = .ok (batch, invs))
    (placed : c.settings.outputDirectory = .ok directory)
    (made : (w.files.makeDirectories directory true).2 = .ok ()) : IsUsable w (.run c)
  /-- There are invocations, and the document is written. -/
  | split {c : SplitCommand} {invs : List Invocation}
    (found : w.files.invocations (Path.ofText c.config) = .ok invs)
    (written : (w.files.writeText (Path.ofText c.output)
      (Invocation.listToText (c.chosen invs))).2 = .ok ()) : IsUsable w (.split c)

/-- The compilations that a front end gives for the tasks of a batch. -/
def Batch.Gives (b : Batch) (directory : Path) (invs : List Invocation) (frontEnd : FrontEnd)
    (compilation : Compilation) : Prop :=
  ∃ t ∈ b.tasks directory invs, (frontEnd t.source t.options).result = .ok compilation

/-- The failures of a command that are foreseen nowhere. -/
inductive Command.Escapes (frontEnd : FrontEnd) (w : World) : Command → Failure → Prop
  /-- The document is not even looked for: a name in its path is too long. -/
  | longName {c : RunCommand} {e : FileError}
    (refused : w.files.exists (Path.ofText c.config) = .error e) :
    Escapes frontEnd w (.run c) (.file e)
  /-- There is no reading the document. -/
  | invocations {c : RunCommand} {e : Failure}
    (unread : w.files.Escapes (Path.ofText c.config) e) : Escapes frontEnd w (.run c) e
  /-- There is no reading the rules. -/
  | rules {c : RunCommand} {path : String} {e : Failure} (given : c.rules? = some path)
    (unread : w.files.Escapes (Path.ofText path) e) : Escapes frontEnd w (.run c) e
  /-- A pattern is a mistake. -/
  | pattern {c : RunCommand} {e : PatternError}
    (mistaken : InputFilter.ofTexts? c.excluded = .error e) :
    Escapes frontEnd w (.run c) (.pattern e)
  /-- The directory for artifacts has no name to be changed. -/
  | unnamed {c : RunCommand} {e : Path.NameError}
    (unnamed : c.settings.outputDirectory = .error e) : Escapes frontEnd w (.run c) (.unnamed e)
  /-- The path of the directory for artifacts is none. -/
  | directory {c : RunCommand} {directory : Path}
    (placed : c.settings.outputDirectory = .ok directory) (null : directory.HoldsNull) :
    Escapes frontEnd w (.run c) (.file .embeddedNull)
  /-- A failure escapes from the batch. -/
  | batch {c : RunCommand} {batch : Batch} {invs : List Invocation} {directory : Path}
    {e : Failure} (found : c.batchIn w.files = .ok (batch, invs))
    (placed : c.settings.outputDirectory = .ok directory)
    (escapes : batch.Escapes directory invs (batch.Gives directory invs frontEnd) e) :
    Escapes frontEnd w (.run c) e
  /-- There is no reading the document to be split. -/
  | unread {c : SplitCommand} {e : Failure} (unread : w.files.Escapes (Path.ofText c.config) e) :
    Escapes frontEnd w (.split c) e
  /-- The path of the document to be written is none. -/
  | output {c : SplitCommand} (null : (Path.ofText c.output).HoldsNull) :
    Escapes frontEnd w (.split c) (.file .embeddedNull)

/-- A command comes to a reply, or to a failure that is foreseen nowhere.  Only a command that
nothing stands in the way of is replied to with an exit code below 2. -/
inductive Command.EndsWith (frontEnd : FrontEnd) (w : World) (command : Command) :
    CommandEnding → Prop
  /-- There is a reply. -/
  | reply {reply : CommandReply} (code : reply.exitCode ≤ 2)
    (usable : reply.exitCode ≠ 2 → command.IsUsable w) : EndsWith frontEnd w command (.ok reply)
  /-- A failure goes through. -/
  | failure {e : Failure} (escapes : command.Escapes frontEnd w e) :
    EndsWith frontEnd w command (.error e)

theorem Command.EndsWith.refusal {frontEnd : FrontEnd} {w : World} {command : Command}
    (complaint : String) : command.EndsWith frontEnd w (.ok (.refusal complaint)) :=
  .reply (Nat.le_refl 2) fun h => absurd rfl h

/-- A batch that came to its end is no matter of the configuration. -/
theorem BatchReport.exitCode_le (report : BatchReport) :
    (CommandReply.ofReport report).exitCode ≤ 2 := by
  unfold CommandReply.ofReport
  dsimp only
  split <;> omega

variable {frontEnd : FrontEnd} {w : World}

/-! ### Runs -/

namespace RunCommand

variable {c : RunCommand} {batch : Batch} {invs : List Invocation}

/-- What a batch comes to decides about the reply. -/
theorem runIn_conclude (c : RunCommand) (frontEnd : FrontEnd) (w : World)
    (answer : Except Failure BatchReport) :
    match answer with
    | .ok report => (c.conclude answer).runIn frontEnd w = (.ok (.ofReport report), w)
    | .error e =>
      if e.isReported then ∃ complaint log,
        (c.conclude answer).runIn frontEnd w = (.ok (.refusal complaint), { w with log := log })
      else (c.conclude answer).runIn frontEnd w = (.error e, w) := by
  cases answer with
  | ok report => rfl
  | error e =>
    -- each failure is reported, or it goes through; only those of files may do either
    cases e with
    | rules fault =>
      have hreported : (Failure.rules fault).isReported = true := rfl
      dsimp only [conclude]
      rw [if_pos hreported, Program.runIn_bind, Program.runIn_tell]
      exact ⟨_, _, rfl⟩
    | file e =>
      cases hsystem : e.isFromSystem with
      | true =>
        have hreported : (Failure.file e).isReported = true := hsystem
        have hrefused : (Failure.file e).isFromSystem = true := hsystem
        dsimp only [conclude]
        rw [if_pos hreported, if_pos hrefused, Program.runIn_bind, Program.runIn_tell]
        exact ⟨_, _, rfl⟩
      | false =>
        obtain rfl := FileError.eq_embeddedNull hsystem
        rfl
    | invocations | unencodable | notText | longNumber | pattern | unnamed | text | noWorkers
    | noTime => rfl

/-- A batch that a command finds has its settings, and the rules that it finds. -/
theorem exists_eq_of_batchIn {fs : FileSystem} (h : c.batchIn fs = .ok (batch, invs)) :
    0 < c.workers ∧ ∃ rules filter, c.rulesIn fs = .ok rules ∧
      batch = ⟨c.settings, .standard, rules, filter⟩ := by
  have hprepares := c.prepares fs
  rw [h] at hprepares
  cases hprepares with
  | batch workers _ found _ => exact ⟨workers, _, _, found, rfl⟩

theorem settings_of_batchIn {fs : FileSystem} (h : c.batchIn fs = .ok (batch, invs)) :
    batch.settings = c.settings ∧ 0 < c.workers := by
  obtain ⟨hworkers, rules, filter, -, rfl⟩ := exists_eq_of_batchIn h
  exact ⟨rfl, hworkers⟩

/-- The extension of artifacts is a name. -/
theorem extension_of_batchIn {fs : FileSystem} (h : c.batchIn fs = .ok (batch, invs)) :
    batch.settings.extension ≠ "" ∧ '/' ∉ batch.settings.extension.toList := by
  have hextension : batch.settings.extension = "obj" := by
    rw [(settings_of_batchIn h).1]
    rfl
  rw [hextension]
  decide

/-- Where there is no batch a failure is refused, or it escapes. -/
theorem escapes_of_batchIn {e : Failure} (h : c.batchIn w.files = .error e)
    (hrefused : e.isRefused = false) : (Command.run c).Escapes frontEnd w e := by
  have hprepares := c.prepares w.files
  rw [h] at hprepares
  cases hprepares with
  | noWorkers | noTime => exact absurd hrefused (by simp [Failure.isRefused])
  | invocations unread =>
    rw [isRefused_of_invocations unread] at hrefused
    exact .invocations ((escapes_of_invocations unread).resolve_left (Bool.eq_false_iff.1 hrefused))
  | rules unread =>
    rw [c.isRefused_of_rulesIn unread] at hrefused
    rcases c.rulesIn_eq w.files with heq | ⟨path, hpath, heq⟩
    · exact absurd (unread.symm.trans heq) (by simp)
    · have hescapes := escapes_of_rules (heq.symm.trans unread)
      exact .rules hpath (hescapes.resolve_left (Bool.eq_false_iff.1 hrefused))
  | pattern mistaken => exact .pattern mistaken

/-- A command ends well if its batch does, and its batch fails with nothing unforeseen. -/
theorem endsWith_conclude {answer : Except Failure BatchReport} (w' : World)
    (hfailed : ∀ e, answer = .error e → e.isReported = false →
      (Command.run c).Escapes frontEnd w e)
    (hdone : ∀ report, answer = .ok report → (Command.run c).IsUsable w) :
    (Command.run c).EndsWith frontEnd w ((c.conclude answer).runIn frontEnd w').1 := by
  have hconclude := c.runIn_conclude frontEnd w' answer
  cases answer with
  | ok report =>
    dsimp only at hconclude
    rw [hconclude]
    exact .reply (report.exitCode_le) fun _ => hdone report rfl
  | error e =>
    dsimp only at hconclude
    split at hconclude
    · obtain ⟨complaint, log, heq⟩ := hconclude
      rw [heq]
      exact .refusal complaint
    · next hreported =>
      rw [hconclude]
      exact .failure (hfailed e rfl (Bool.eq_false_iff.2 hreported))

/-- What handling the batch of a command comes to. -/
theorem endsWith_handle (hexists : w.files.exists (Path.ofText c.config) = .ok true)
    (h : c.batchIn w.files = .ok (batch, invs)) (log : List LogLine) :
    (Command.run c).EndsWith frontEnd w
      ((c.handle batch invs).runIn frontEnd { w with log := log }).1 := by
  obtain ⟨hsettings, hworkers⟩ := settings_of_batchIn h
  have hworkers' : 0 < batch.settings.workers := by rwa [hsettings]
  obtain ⟨hempty, hslash⟩ := extension_of_batchIn h
  rw [handle, Program.runIn_bind]
  -- a batch needs a name for its directory, then the directory, and then it runs
  cases hdirectory : c.settings.outputDirectory with
  | error e =>
    rw [← hsettings] at hdirectory
    rw [Batch.runIn_run_of_unnamed hdirectory]
    rw [hsettings] at hdirectory
    exact .failure (.unnamed hdirectory)
  | ok directory =>
    have hbatch : batch.settings.outputDirectory = .ok directory := by
      rw [hsettings, hdirectory]
    rcases hmake : w.files.makeDirectories directory true with ⟨files, answer⟩
    have hanswer : (w.files.makeDirectories directory true).2 = answer := by rw [hmake]
    cases answer with
    | error e =>
      have hmake' : ({ w with log := log } : World).files.makeDirectories directory true
        = (files, .error e) := hmake
      rw [Batch.runIn_run_of_refused hbatch hmake']
      refine endsWith_conclude _ (fun e' he hreported => ?_) fun report hok =>
        absurd hok (by simp)
      obtain rfl := Except.error.inj he
      obtain rfl := FileError.eq_embeddedNull hreported
      exact .directory hdirectory (holdsNull_of_makeDirectories hanswer)
    | ok u =>
      refine endsWith_conclude _ (fun e he hreported => ?_) fun report _ =>
        .run hexists h hdirectory hanswer
      have hmake' : (({ w with log := log } : World).files.makeDirectories directory true).2
        = .ok () := hanswer
      have hescapes := Batch.escapes_of_run hempty hslash hworkers' hbatch hmake' he
      rcases hescapes with hreported' | hescapes
      · rw [hreported] at hreported'
        exact absurd hreported' (by simp)
      · exact .batch h hdirectory hescapes

/-- How the command ends. -/
theorem endsWith_run (c : RunCommand) :
    (Command.run c).EndsWith frontEnd w (c.run.runIn frontEnd w).1 := by
  cases hexists : w.files.exists (Path.ofText c.config) with
  | error e =>
    rw [c.runIn_run_of_exists_error frontEnd w hexists]
    exact .failure (.longName hexists)
  | ok there =>
    cases there with
    | false =>
      obtain ⟨complaint, log, hrun⟩ := c.runIn_run_of_absent frontEnd w hexists
      rw [hrun]
      exact .refusal complaint
    | true =>
      have hrun := c.runIn_run frontEnd w hexists
      cases hbatch : c.batchIn w.files with
      | error e =>
        rw [hbatch] at hrun
        dsimp only at hrun
        split at hrun
        · obtain ⟨complaint, log, hrun⟩ := hrun
          rw [hrun]
          exact .refusal complaint
        · next hrefused =>
          obtain ⟨log, hrun⟩ := hrun
          rw [hrun]
          exact .failure (escapes_of_batchIn hbatch (Bool.eq_false_iff.2 hrefused))
      | ok found =>
        obtain ⟨batch, invs⟩ := found
        rw [hbatch] at hrun
        obtain ⟨log, hrun⟩ := hrun
        rw [hrun]
        exact endsWith_handle hexists hbatch log

end RunCommand

/-! ### Splits -/

/-- How the command ends. -/
theorem SplitCommand.endsWith_run (c : SplitCommand) :
    (Command.split c).EndsWith frontEnd w (c.run.runIn frontEnd w).1 := by
  have hrun := c.runIn_run frontEnd w
  cases hinvs : w.files.invocations (Path.ofText c.config) with
  | error e =>
    rw [hinvs] at hrun
    dsimp only at hrun
    split at hrun
    · obtain ⟨complaint, log, hrun⟩ := hrun
      rw [hrun]
      exact .refusal complaint
    · next hannounced =>
      obtain ⟨log, hrun⟩ := hrun
      rw [hrun]
      exact .failure (.unread ((escapes_of_invocations hinvs).resolve_left hannounced))
  | ok invs =>
    rw [hinvs] at hrun
    dsimp only at hrun
    rcases hwrite : w.files.writeText (Path.ofText c.output)
      (Invocation.listToText (c.chosen invs)) with ⟨files, answer⟩
    have hanswer := congrArg Prod.snd hwrite
    rw [hwrite] at hrun
    cases answer with
    | ok u =>
      obtain ⟨log, hrun⟩ := hrun
      rw [hrun]
      exact .reply (Nat.zero_le 2) fun _ => .split hinvs hanswer
    | error e =>
      dsimp only at hrun
      split at hrun
      · obtain ⟨complaint, log, hrun⟩ := hrun
        rw [hrun]
        exact .refusal complaint
      · next hsystem =>
        obtain ⟨log, hrun⟩ := hrun
        rw [hrun]
        obtain ⟨rfl, hnull⟩ := (escapes_of_writeText hanswer).resolve_left hsystem
        exact .failure (.output hnull)

/-! ### Command lines -/

namespace CommandLine

/-- How a command line ends. -/
structure Ends (frontEnd : FrontEnd) (w : World) (arguments : List String) : Prop where
  /-- A command line that makes no command is refused. -/
  refused : Command.ofArguments? arguments = none →
    ((run arguments).runIn frontEnd w).1 = .ok (.refusal "")
  /-- A command ends with a reply, or with a failure that is foreseen nowhere. -/
  ended : ∀ command, Command.ofArguments? arguments = some command →
    command.EndsWith frontEnd w ((run arguments).runIn frontEnd w).1
  /-- It is no different when many workers share a batch. -/
  anyOrder : ∀ c batch invs directory p, Command.ofArguments? arguments = some (.run c) →
    c.batchIn w.files = .ok (batch, invs) → c.settings.outputDirectory = .ok directory →
    Pool.Reaches batch (batch.pool directory invs w) p →
    (∃ reply, ((c.conclude p.result).runIn frontEnd p.world).1 = .ok reply ∧ reply.exitCode ≤ 2) ∨
      ∃ e, ((c.conclude p.result).runIn frontEnd p.world).1 = .error e ∧
        batch.Escapes directory invs (fun compilation =>
          ∃ v, .taken v ∈ p.jobs ∧ v.compilation? = some compilation) e

/-- **Octets that are no text go through.**  A document that is there, and that nobody can decode, is
not refused like others that are no good. -/
theorem runIn_run_of_undecodable (c : RunCommand) (frontEnd : FrontEnd) {w : World}
    {octets : List UInt8} {fault : Utf8.Fault} (hworkers : 0 < c.workers)
    (htime : (c.timeout?.map Binary64.nonPositive).getD false = false)
    (hread : w.files.read (Path.ofText c.config) = .ok octets)
    (hfault : Utf8.decode octets = .error fault) :
    (c.run.runIn frontEnd w).1 = .error (.notText fault) := by
  have htext : w.files.text (Path.ofText c.config) = .error (.notText fault) := by
    rw [text, hread]
    simp only [TextFile.ofOctets, hfault]
  have hbatch : c.batchIn w.files = .error (.notText fault) := by
    rw [RunCommand.batchIn, if_neg (not_le.2 hworkers), if_neg (by rw [htime]; simp), invocations,
      htext]
  have hrun := c.runIn_run frontEnd w (exists_of_read hread)
  rw [hbatch] at hrun
  obtain ⟨log, hrun⟩ := hrun
  rw [hrun]

/-- The files of a working directory where the octets of a document are no text. -/
def undecodable : FileSystem :=
  ⟨[(["work"], .directory), (["work", "cl.json"], .file [0xff])], ["work"]⟩

end CommandLine

end DeclGraph
