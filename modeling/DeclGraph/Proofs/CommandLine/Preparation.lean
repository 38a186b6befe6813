import DeclGraph.CommandLine.Run
import DeclGraph.Proofs.Invocation.File

/-!
# What commands find

Before a command does anything it reads documents.  What it finds depends on the files alone:
`FileSystem.invocations` and `FileSystem.rules` say what is read from a file, and
`RunCommand.batchIn` puts together the batch that a command handles.  Reading changes nothing but
the log, so `RunCommand.run` is a matter of three cases: there is no batch and a reply says so, there
is none and the failure goes through, or the batch is run (`RunCommand.runIn_run`).
`SplitCommand.runIn_run` says the same of the other command.
-/

namespace DeclGraph

/-- The rules of a file. -/
def FileSystem.rules (fs : FileSystem) (path : Path) : Except Failure Rules :=
  match fs.text path with
  | .error e => .error e
  | .ok text =>
    match RulesDocument.ofText text with
    | .error e => .error (.ofRules e)
    | .ok document => document.rules.mapError .ofRules

variable (frontEnd : FrontEnd) (w : World)

theorem Rules.runIn_load (path : Path) : ∃ log,
    (Rules.load path).runIn frontEnd w = (w.files.rules path, { w with log := log }) := by
  simp only [Rules.load, FileSystem.rules, Program.runIn_bind, TextFile.runIn_read]
  cases w.files.text path with
  | error e => exact ⟨w.log, rfl⟩
  | ok text =>
    dsimp only
    cases RulesDocument.ofText text with
    | error e => exact ⟨w.log, rfl⟩
    | ok document =>
      dsimp only
      cases document.rules with
      | error e => exact ⟨w.log, rfl⟩
      | ok rules =>
        simp only [Program.runIn_bind, Program.runIn_tell, Program.runIn_pure]
        exact ⟨_, rfl⟩

/-! ### Failures -/

/-- The failure is one that a command replies to before its batch starts: its options make no sense,
or a document of its configuration is no good. -/
def Failure.isRefused : Failure → Bool
  | .noWorkers | .noTime => true
  | e => e.isAnnounced

/-- No file is to blame for the options. -/
theorem FileSystem.isRefused_of_text {fs : FileSystem} {path : Path} {e : Failure}
    (h : fs.text path = .error e) : e.isRefused = e.isAnnounced := by
  unfold text at h
  split at h
  · unfold TextFile.ofOctets at h
    split at h
    · exact absurd h (by simp)
    · obtain rfl := Except.error.inj h
      rfl
  · obtain rfl := Except.error.inj h
    rfl

theorem FileSystem.isRefused_of_invocations {fs : FileSystem} {path : Path} {e : Failure}
    (h : fs.invocations path = .error e) : e.isRefused = e.isAnnounced := by
  unfold invocations at h
  split at h
  · next htext => exact isRefused_of_text (Except.error.inj h ▸ htext)
  · next text _ =>
    cases hlist : Invocation.listOfText text with
    | ok invs =>
      rw [hlist] at h
      cases h
    | error fault =>
      rw [hlist] at h
      obtain rfl := Except.error.inj h
      unfold Failure.ofDocument
      split <;> rfl

theorem FileSystem.isRefused_of_rules {fs : FileSystem} {path : Path} {e : Failure}
    (h : fs.rules path = .error e) : e.isRefused = e.isAnnounced := by
  have hrules (fault : RulesError) :
      (Failure.ofRules fault).isRefused = (Failure.ofRules fault).isAnnounced := by
    unfold Failure.ofRules
    split <;> rfl
  unfold rules at h
  split at h
  · next htext => exact isRefused_of_text (Except.error.inj h ▸ htext)
  · split at h
    · obtain rfl := Except.error.inj h
      exact hrules _
    · next document _ =>
      cases hmake : document.rules with
      | ok rules =>
        rw [hmake] at h
        cases h
      | error fault =>
        rw [hmake] at h
        obtain rfl := Except.error.inj h
        exact hrules _

namespace RunCommand

variable (c : RunCommand)

/-- The rules that a command finds. -/
def rulesIn (fs : FileSystem) : Except Failure Rules :=
  match c.rules? with
  | none => .ok .standard
  | some path => if path.isEmpty then .ok .standard else fs.rules (Path.ofText path)

/-- The invocations that a command handles, of those in its document. -/
def chosen (invs : List Invocation) : List Invocation :=
  if c.targets.isEmpty then invs else Invocation.split invs c.targets

/-- The batch that a command finds in its documents, and the invocations that are handled. -/
def batchIn (fs : FileSystem) : Except Failure (Batch × List Invocation) :=
  if c.workers ≤ 0 then .error .noWorkers
  else if (c.timeout?.map Binary64.nonPositive).getD false then .error .noTime
  else
    match fs.invocations (Path.ofText c.config) with
    | .error e => .error e
    | .ok invs =>
      match c.rulesIn fs with
      | .error e => .error e
      | .ok rules =>
        match Batch.make? c.settings .standard rules with
        | .error e => .error e
        | .ok batch => .ok (batch, c.chosen invs)

/-- The part of the command behind the documents. -/
def handle (batch : Batch) (invs : List Invocation) : Program CommandEnding :=
  batch.run invs >>= c.conclude

/-- The rules are the standard ones, or those of a document that is given. -/
theorem rulesIn_eq (fs : FileSystem) : c.rulesIn fs = .ok .standard ∨
    ∃ path, c.rules? = some path ∧ c.rulesIn fs = fs.rules (Path.ofText path) := by
  unfold rulesIn
  cases c.rules? with
  | none => exact .inl rfl
  | some path =>
    dsimp only
    split_ifs
    · exact .inl rfl
    · exact .inr ⟨path, rfl, rfl⟩

theorem isRefused_of_rulesIn {fs : FileSystem} {e : Failure} (h : c.rulesIn fs = .error e) :
    e.isRefused = e.isAnnounced := by
  rcases c.rulesIn_eq fs with heq | ⟨path, -, heq⟩
  · exact absurd (h.symm.trans heq) (by simp)
  · exact FileSystem.isRefused_of_rules (heq.symm.trans h)

theorem runIn_loadRules : ∃ log,
    c.loadRules.runIn frontEnd w = (c.rulesIn w.files, { w with log := log }) := by
  unfold loadRules rulesIn
  cases c.rules? with
  | none => exact ⟨w.log, rfl⟩
  | some path =>
    dsimp only
    split
    · exact ⟨w.log, rfl⟩
    · exact Rules.runIn_load frontEnd w _

theorem runIn_loadAll : ∃ log, c.loadAll.runIn frontEnd w =
    ((match w.files.invocations (Path.ofText c.config) with
      | .error e => .error e
      | .ok invs => (c.rulesIn w.files).map fun rules => (invs, rules)),
      { w with log := log }) := by
  obtain ⟨log, hload⟩ := Invocation.runIn_load frontEnd w (Path.ofText c.config)
  simp only [loadAll, Program.runIn_bind, hload]
  cases w.files.invocations (Path.ofText c.config) with
  | error e => exact ⟨log, rfl⟩
  | ok invs =>
    obtain ⟨log', hrules⟩ := c.runIn_loadRules frontEnd { w with log := log }
    simp only [Program.runIn_bind, hrules]
    refine ⟨log', ?_⟩
    cases c.rulesIn w.files <;> rfl

/-- Settings that make sense are refused for a pattern alone. -/
theorem make?_eq (hworkers : ¬ c.workers ≤ 0)
    (htime : ¬ (c.timeout?.map Binary64.nonPositive).getD false = true) (rules : Rules) :
    Batch.make? c.settings .standard rules =
      match InputFilter.ofTexts? c.excluded with
      | .ok filter => .ok ⟨c.settings, .standard, rules, filter⟩
      | .error e => .error (.pattern e) := by
  have hworkers' : ¬ c.settings.workers ≤ 0 := hworkers
  have htime' : ¬ (c.settings.timeout?.map Binary64.nonPositive).getD false = true := htime
  rw [Batch.make?, if_neg hworkers', if_neg htime']
  rfl

/-- How a command finds its batch, or what it misses first. -/
inductive Prepares (fs : FileSystem) : Except Failure (Batch × List Invocation) → Prop
  /-- The number of workers makes no sense. -/
  | noWorkers (workers : c.workers ≤ 0) : Prepares fs (.error .noWorkers)
  /-- The time for a parse makes no sense. -/
  | noTime (time : (c.timeout?.map Binary64.nonPositive).getD false = true) :
    Prepares fs (.error .noTime)
  /-- There is no reading the invocations. -/
  | invocations {e : Failure} (unread : fs.invocations (Path.ofText c.config) = .error e) :
    Prepares fs (.error e)
  /-- There is no reading the rules. -/
  | rules {e : Failure} (unread : c.rulesIn fs = .error e) : Prepares fs (.error e)
  /-- A pattern is a mistake. -/
  | pattern {e : PatternError} (mistaken : InputFilter.ofTexts? c.excluded = .error e) :
    Prepares fs (.error (.pattern e))
  /-- There is a batch. -/
  | batch {invs : List Invocation} {rules : Rules} {filter : InputFilter} (workers : 0 < c.workers)
    (read : fs.invocations (Path.ofText c.config) = .ok invs) (found : c.rulesIn fs = .ok rules)
    (patterns : InputFilter.ofTexts? c.excluded = .ok filter) :
    Prepares fs (.ok (⟨c.settings, .standard, rules, filter⟩, c.chosen invs))

theorem prepares (fs : FileSystem) : c.Prepares fs (c.batchIn fs) := by
  unfold batchIn
  split_ifs with hworkers htime
  · exact .noWorkers hworkers
  · exact .noTime htime
  · cases hinvs : fs.invocations (Path.ofText c.config) with
    | error e => exact .invocations hinvs
    | ok invs =>
      cases hrules : c.rulesIn fs with
      | error e => exact .rules hrules
      | ok rules =>
        dsimp only
        rw [c.make?_eq hworkers htime]
        cases hfilter : InputFilter.ofTexts? c.excluded with
        | error e => exact .pattern hfilter
        | ok filter => exact .batch (not_le.1 hworkers) hinvs hrules hfilter

/-- Handling the invocations that are chosen from all of them. -/
theorem runIn_runBatch (invs : List Invocation) (rules : Rules) : ∃ log,
    (c.runBatch invs rules).runIn frontEnd w =
      (match Batch.make? c.settings .standard rules with
        | .error e => c.conclude (.error e)
        | .ok batch => c.handle batch (c.chosen invs)).runIn frontEnd { w with log := log } := by
  have hnext (chosen : List Invocation) (w : World) :
      (match Batch.make? c.settings .standard rules with
        | .error e => c.conclude (.error e)
        | .ok batch => batch.run chosen >>= c.conclude).runIn frontEnd w =
      (match Batch.make? c.settings .standard rules with
        | .error e => c.conclude (.error e)
        | .ok batch => c.handle batch chosen).runIn frontEnd w := rfl
  unfold runBatch chosen
  by_cases htargets : c.targets.isEmpty = true
  · refine ⟨w.log, ?_⟩
    rw [if_pos htargets, if_pos htargets, Program.runIn_bind, Program.runIn_pure]
    exact hnext _ _
  · refine ⟨w.log ++ Invocation.splitLog invs c.targets, ?_⟩
    rw [if_neg htargets, if_neg htargets, Program.runIn_bind, Program.runIn_bind,
      Program.runIn_tell, Program.runIn_pure]
    exact hnext _ _

/-- A document that cannot be looked for lets the failure through. -/
theorem runIn_run_of_exists_error {e : FileError}
    (hexists : w.files.exists (Path.ofText c.config) = .error e) :
    c.run.runIn frontEnd w = (.error (.file e), w) := by
  simp only [run, Program.runIn_bind, Program.runIn_request, World.perform, hexists,
    Program.runIn_pure]

/-- A document that is not there is complained of. -/
theorem runIn_run_of_absent (hexists : w.files.exists (Path.ofText c.config) = .ok false) :
    ∃ complaint log,
      c.run.runIn frontEnd w = (.ok (.refusal complaint), { w with log := log }) := by
  simp only [run, Program.runIn_bind, Program.runIn_request, World.perform, hexists,
    Program.runIn_tell, Program.runIn_pure]
  exact ⟨_, _, rfl⟩

/-- What follows a failure before the batch starts. -/
def refuse (e : Failure) : Program CommandEnding := do
  if e.isAnnounced then
    Program.tell [.warning ("Invalid configuration (error=" ++ e.message ++ ")")]
    return .ok (.refusal ("Invalid configuration: " ++ e.message ++ "\n"))
  else return .error e

/-- A failure before the batch starts is complained of or goes through. -/
theorem runIn_refuse {e : Failure} (h : e.isRefused = e.isAnnounced) :
    if e.isRefused then ∃ complaint log,
      (refuse e).runIn frontEnd w = (.ok (.refusal complaint), { w with log := log })
    else ∃ log, (refuse e).runIn frontEnd w = (.error e, { w with log := log }) := by
  unfold refuse
  rw [h]
  split
  · rw [Program.runIn_bind, Program.runIn_tell]
    exact ⟨_, _, rfl⟩
  · exact ⟨_, rfl⟩

/-- What a command comes to whose document is there: where it finds no batch it complains or lets
the failure through, and otherwise it handles the batch. -/
theorem runIn_run (hexists : w.files.exists (Path.ofText c.config) = .ok true) :
    match c.batchIn w.files with
    | .ok (batch, invs) => ∃ log,
      c.run.runIn frontEnd w = (c.handle batch invs).runIn frontEnd { w with log := log }
    | .error e =>
      if e.isRefused then ∃ complaint log,
        c.run.runIn frontEnd w = (.ok (.refusal complaint), { w with log := log })
      else ∃ log, c.run.runIn frontEnd w = (.error e, { w with log := log }) := by
  simp only [run, batchIn, Program.runIn_bind, Program.runIn_request, World.perform, hexists]
  by_cases hworkers : c.workers ≤ 0
  · rw [if_pos hworkers, if_pos hworkers, Program.runIn_bind, Program.runIn_tell]
    exact ⟨_, _, rfl⟩
  rw [if_neg hworkers, if_neg hworkers]
  by_cases htime : (c.timeout?.map Binary64.nonPositive).getD false = true
  · rw [if_pos htime, if_pos htime, Program.runIn_bind, Program.runIn_tell]
    exact ⟨_, _, rfl⟩
  rw [if_neg htime, if_neg htime]
  obtain ⟨log, hload⟩ := c.runIn_loadAll frontEnd w
  rw [Program.runIn_bind, hload]
  cases hinvs : w.files.invocations (Path.ofText c.config) with
  | error e => exact runIn_refuse frontEnd _ (FileSystem.isRefused_of_invocations hinvs)
  | ok invs =>
    cases hrules : c.rulesIn w.files with
    | error e => exact runIn_refuse frontEnd _ (c.isRefused_of_rulesIn hrules)
    | ok rules =>
      obtain ⟨log', hbatch⟩ := c.runIn_runBatch frontEnd { w with log := log } invs rules
      dsimp only [Except.map]
      rw [hbatch, c.make?_eq hworkers htime]
      cases InputFilter.ofTexts? c.excluded with
      | error e => exact ⟨log', rfl⟩
      | ok filter => exact ⟨log', rfl⟩

end RunCommand

namespace SplitCommand

/-- The invocations that a command writes, of those in its document. -/
def chosen (c : SplitCommand) (invs : List Invocation) : List Invocation :=
  Invocation.split invs c.targets

/-- What a command comes to that writes invocations. -/
theorem runIn_run (c : SplitCommand) :
    match w.files.invocations (Path.ofText c.config) with
    | .error e =>
      if e.isAnnounced then ∃ complaint log,
        c.run.runIn frontEnd w = (.ok (.refusal complaint), { w with log := log })
      else ∃ log, c.run.runIn frontEnd w = (.error e, { w with log := log })
    | .ok invs =>
      match w.files.writeText (Path.ofText c.output) (Invocation.listToText (c.chosen invs)) with
      | (files, .ok ()) => ∃ log, c.run.runIn frontEnd w
          = (.ok ⟨0, (Path.ofText c.output).text ++ "\n", ""⟩, ⟨files, log, w.calls⟩)
      | (files, .error e) =>
        if e.isFromSystem then ∃ complaint log,
          c.run.runIn frontEnd w = (.ok (.refusal complaint), ⟨files, log, w.calls⟩)
        else ∃ log, c.run.runIn frontEnd w = (.error e, ⟨files, log, w.calls⟩) := by
  obtain ⟨log, hload⟩ := Invocation.runIn_load frontEnd w (Path.ofText c.config)
  rw [run, Program.runIn_bind, hload]
  cases w.files.invocations (Path.ofText c.config) with
  | error e =>
    dsimp only
    split
    · rw [Program.runIn_bind, Program.runIn_tell]
      exact ⟨_, _, rfl⟩
    · exact ⟨_, rfl⟩
  | ok invs =>
    dsimp only
    rw [Program.runIn_bind, Program.runIn_tell, Program.runIn_bind, Invocation.store,
      TextFile.runIn_write]
    rw [chosen]
    rcases w.files.writeText (Path.ofText c.output)
      (Invocation.listToText (Invocation.split invs c.targets)) with ⟨files, answer⟩
    cases answer with
    | error e =>
      dsimp only
      split
      · rw [Program.runIn_bind, Program.runIn_tell]
        exact ⟨_, _, rfl⟩
      · exact ⟨_, rfl⟩
    | ok u =>
      dsimp only
      rw [Program.runIn_bind, Program.runIn_tell]
      exact ⟨_, rfl⟩

end SplitCommand

end DeclGraph
