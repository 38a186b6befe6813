import DeclGraph.Proofs.CommandLine.Ending
import DeclGraph.Proofs.CommandLine.Stored

/-!
# Splitting beforehand and in memory

A split can be made beforehand, with a command that writes a document for a run, or in memory by the
run itself.  `CommandLine.agree_of_split` says that the two come to the same
(`CommandLine.Agree`): the same is said, the same batch is handled, with the same report and the same
parses, and apart from what the split wrote the same files are there, in whatever order the workers
take their steps.

This takes that what the split writes is nothing to the run (`SplitCommand.IsAside`): it is aside from
the output directory, and it does not make rules readable.  A directory that is made for the document
may do that (`CommandLine.run_detour`).
-/

namespace DeclGraph

open FileSystem

/-- What a command says: its exit code and what it prints, or a failure that goes through. -/
def CommandEnding.said (ending : CommandEnding) : Except Failure (Nat × String) :=
  ending.map fun reply => (reply.exitCode, reply.output)

/-- What a split writes is nothing to a run. -/
structure SplitCommand.IsAside (s : SplitCommand) (c : RunCommand) (fs fs' : FileSystem) :
    Prop where
  /-- The document is aside from the output directory, and so are the directories made for it. -/
  directory : ∀ directory p, c.settings.outputDirectory = .ok directory →
    fs'.place? (Path.ofText s.output) = some p → fs.Aside (IsNew fs fs') p directory
  /-- Rules that can be read with them could be read before, and read the same. -/
  rules : ∀ path octets, c.rules? = some path →
    fs'.read (Path.ofText path) = .ok octets → fs.read (Path.ofText path) = .ok octets

variable {frontEnd : FrontEnd} {w w' w₁ : World} {p : Place} {New : Place → Prop}

/-! ### Runs -/

namespace RunCommand

variable {c c' : RunCommand} {batch : Batch} {invs : List Invocation}

/-- What is said of results that are alike is the same, and nothing but the log changes. -/
theorem said_conclude {answer answer' : Except Failure BatchReport}
    (halike : Failure.Alike Failure.isReported answer answer') (h : w.Adds New p w') :
    ((c'.conclude answer').runIn frontEnd w').1.said = ((c.conclude answer).runIn frontEnd w).1.said
      ∧ ((c.conclude answer).runIn frontEnd w).2.Adds New p
        ((c'.conclude answer').runIn frontEnd w').2 := by
  have hconclude := c.runIn_conclude frontEnd w answer
  have hconclude' := c'.runIn_conclude frontEnd w' answer'
  -- the same answer is told in the same words; two refusals have the same exit code and no more
  rcases halike with rfl | ⟨e, e', rfl, rfl, hreported, hreported'⟩
  · cases answer' with
    | ok report =>
      dsimp only at hconclude hconclude'
      rw [hconclude, hconclude']
      exact ⟨rfl, h⟩
    | error e =>
      dsimp only at hconclude hconclude'
      split_ifs at hconclude hconclude' with hreported
      · obtain ⟨complaint, log, heq⟩ := hconclude
        obtain ⟨complaint', log', heq'⟩ := hconclude'
        rw [heq, heq']
        exact ⟨rfl, h.files, h.calls⟩
      · rw [hconclude, hconclude']
        exact ⟨rfl, h⟩
  · dsimp only at hconclude hconclude'
    rw [if_pos hreported] at hconclude
    rw [if_pos hreported'] at hconclude'
    obtain ⟨complaint, log, heq⟩ := hconclude
    obtain ⟨complaint', log', heq'⟩ := hconclude'
    rw [heq, heq']
    exact ⟨rfl, h.files, h.calls⟩

/-- The extension of the artifacts of a command is part of a name. -/
theorem length_extension_of_batchIn {fs : FileSystem} (h : c.batchIn fs = .ok (batch, invs)) :
    1 < batch.settings.extension.length := by
  rw [(settings_of_batchIn h).1]
  show 1 < "obj".length
  decide

/-- Two runs that find the same batch, or no batch, say the same. -/
theorem said_run (frontEnd : FrontEnd) (h : w.Adds New p w') (htree : w.files.IsTree)
    (htree' : w'.files.IsTree)
    (hexists : w.files.exists (Path.ofText c.config) = .ok true)
    (hexists' : w'.files.exists (Path.ofText c'.config) = .ok true)
    (hbatch : Failure.Alike Failure.isRefused (c.batchIn w.files) (c'.batchIn w'.files))
    (haside : ∀ directory, c.settings.outputDirectory = .ok directory →
      w.files.Aside New p directory) :
    (c'.run.runIn frontEnd w').1.said = (c.run.runIn frontEnd w).1.said ∧
      (c.run.runIn frontEnd w).2.Adds New p (c'.run.runIn frontEnd w').2 := by
  have hrun := c.runIn_run frontEnd w hexists
  have hrun' := c'.runIn_run frontEnd w' hexists'
  -- either both find the same, or each is refused for its own reason
  rcases hbatch with heq | ⟨e, e', herror, herror', hrefused, hrefused'⟩
  · rw [heq] at hrun'
    cases hfound : c.batchIn w.files with
    | error e =>
      rw [hfound] at hrun hrun'
      dsimp only at hrun hrun'
      split_ifs at hrun hrun' with hrefused
      · obtain ⟨complaint, log, hrun⟩ := hrun
        obtain ⟨complaint', log', hrun'⟩ := hrun'
        rw [hrun, hrun']
        exact ⟨rfl, h.files, h.calls⟩
      · obtain ⟨log, hrun⟩ := hrun
        obtain ⟨log', hrun'⟩ := hrun'
        rw [hrun, hrun']
        exact ⟨rfl, h.files, h.calls⟩
    | ok found =>
      obtain ⟨batch, invs⟩ := found
      rw [hfound] at hrun hrun'
      obtain ⟨log, hrun⟩ := hrun
      obtain ⟨log', hrun'⟩ := hrun'
      have hworlds : World.Adds New p { w with log := log } { w' with log := log' } :=
        ⟨h.files, h.calls⟩
      have hsettings := (settings_of_batchIn hfound).1
      obtain ⟨halike, hafter⟩ := Batch.runIn_run_of_adds frontEnd invs
        (extension_of_batchIn hfound).2 (length_extension_of_batchIn hfound) hworlds htree htree'
        fun directory hdirectory => haside directory (hsettings ▸ hdirectory)
      rw [hrun, hrun', handle, handle, Program.runIn_bind, Program.runIn_bind]
      exact said_conclude halike hafter
  · rw [herror] at hrun
    rw [herror'] at hrun'
    dsimp only at hrun hrun'
    rw [if_pos hrefused] at hrun
    rw [if_pos hrefused'] at hrun'
    obtain ⟨complaint, log, hrun⟩ := hrun
    obtain ⟨complaint', log', hrun'⟩ := hrun'
    rw [hrun, hrun']
    exact ⟨rfl, h.files, h.calls⟩

end RunCommand

/-! ### Splits -/

namespace SplitCommand

variable {s : SplitCommand}

/-- A split that is given has targets. -/
theorem targets_ne_nil {arguments : List String}
    (h : Command.ofArguments? arguments = some (.split s)) : s.targets ≠ [] := by
  unfold Command.ofArguments? at h
  split at h
  · obtain ⟨given, -, h⟩ := Option.bind_eq_some_iff.1 h
    obtain ⟨c, -, h⟩ := Option.bind_eq_some_iff.1 h
    exact absurd (Option.some.inj h) (by simp)
  · obtain ⟨given, -, h⟩ := Option.bind_eq_some_iff.1 h
    obtain ⟨s', hoptions, h⟩ := Option.bind_eq_some_iff.1 h
    obtain rfl := Command.split.inj (Option.some.inj h)
    unfold ofOptions? at hoptions
    obtain ⟨config, -, hoptions⟩ := Option.bind_eq_some_iff.1 hoptions
    obtain ⟨output, -, hoptions⟩ := Option.bind_eq_some_iff.1 hoptions
    split_ifs at hoptions with hrefused
    obtain rfl := Option.some.inj hoptions
    intro hnil
    have hgiven : given.has "--file" = false := by
      rw [GivenOptions.has, show given.all "--file" = [] from hnil]
      rfl
    exact hrefused (by rw [hgiven, Bool.not_false, Bool.or_true])
  · exact absurd h (by simp)

/-- What a split leaves that goes well. -/
theorem exists_stored {reply : CommandReply}
    (h : s.run.runIn frontEnd w = (.ok reply, w₁)) (hcode : reply.exitCode = 0) :
    ∃ invs p, w.files.invocations (Path.ofText s.config) = .ok invs ∧ w₁.calls = w.calls ∧
      Stored w.files w₁.files (Path.ofText s.output) p
        (Utf8.encode (Invocation.listToText (s.chosen invs))) := by
  have hrun := s.runIn_run frontEnd w
  -- a refusal has another exit code
  have hrefusal {complaint : String} {w₂ : World} :
      s.run.runIn frontEnd w ≠ (.ok (.refusal complaint), w₂) := by
    intro heq
    obtain rfl := Except.ok.inj (Prod.mk.inj (h.symm.trans heq)).1
    exact absurd hcode (by simp [CommandReply.refusal])
  have herror {e : Failure} {w₂ : World} : s.run.runIn frontEnd w ≠ (.error e, w₂) := by
    intro heq
    exact absurd (Prod.mk.inj (h.symm.trans heq)).1 (by simp)
  cases hinvs : w.files.invocations (Path.ofText s.config) with
  | error e =>
    rw [hinvs] at hrun
    dsimp only at hrun
    split_ifs at hrun
    · obtain ⟨complaint, log, hrun⟩ := hrun
      exact absurd hrun hrefusal
    · obtain ⟨log, hrun⟩ := hrun
      exact absurd hrun herror
  | ok invs =>
    rw [hinvs] at hrun
    dsimp only at hrun
    rcases hwrite : w.files.writeText (Path.ofText s.output)
      (Invocation.listToText (s.chosen invs)) with ⟨files, answer⟩
    rw [hwrite] at hrun
    cases answer with
    | ok u =>
      obtain ⟨log, hrun⟩ := hrun
      obtain ⟨p, hp⟩ := stored_of_writeText (congrArg Prod.snd hwrite)
      rw [hwrite] at hp
      obtain ⟨-, rfl⟩ := Prod.mk.inj (h.symm.trans hrun)
      exact ⟨invs, p, rfl, rfl, hp⟩
    | error e =>
      dsimp only at hrun
      split_ifs at hrun
      · obtain ⟨complaint, log, hrun⟩ := hrun
        exact absurd hrun hrefusal
      · obtain ⟨log, hrun⟩ := hrun
        exact absurd hrun herror

end SplitCommand

/-! ### Command lines -/

namespace CommandLine

/-- A run on the document that a split wrote comes to the same as a run that splits in memory. -/
structure Agree (frontEnd : FrontEnd) (New : Place → Prop) (p : Place) (before after : List String)
    (c c' : RunCommand) (w w' : World) : Prop where
  /-- They say the same, with the same exit code. -/
  said : ((run after).runIn frontEnd w').1.said = ((run before).runIn frontEnd w).1.said
  /-- The same parses were asked for, and the same files are there afterwards. -/
  left : ((run before).runIn frontEnd w).2.Adds New p ((run after).runIn frontEnd w').2
  /-- They find the same batch, with the same invocations. -/
  batch : ∀ batch invs,
    c'.batchIn w'.files = .ok (batch, invs) ↔ c.batchIn w.files = .ok (batch, invs)
  /-- The batch has the same outcomes. -/
  report : ∀ batch invs report, c.batchIn w.files = .ok (batch, invs) →
    (((batch.run invs).runIn frontEnd w').1 = .ok report ↔
      ((batch.run invs).runIn frontEnd w).1 = .ok report)
  /-- It is no different when many workers share the batch: whatever may become of it in one run may
  become of it in the other. -/
  anyOrder : ∀ batch invs directory, c.batchIn w.files = .ok (batch, invs) →
    c.settings.outputDirectory = .ok directory →
    (w.files.makeDirectories directory true).2 = .ok () →
    (w'.files.makeDirectories directory true).2 = .ok () ∧
    (∀ q, Pool.Reaches batch (batch.pool directory invs w) q → ∃ w₁',
      Pool.Reaches batch (batch.pool directory invs w') ⟨w₁', q.jobs⟩ ∧ q.world.Adds New p w₁') ∧
    (∀ q', Pool.Reaches batch (batch.pool directory invs w') q' → ∃ w₁,
      Pool.Reaches batch (batch.pool directory invs w) ⟨w₁, q'.jobs⟩ ∧ w₁.Adds New p q'.world)

/-- **Splitting beforehand comes to the same as splitting in memory.**  When a split has gone well, a
run on its document agrees with the run that has the same targets, if what the split wrote is nothing
to them. -/
theorem agree_of_split {arguments before after : List String} {s : SplitCommand} {c : RunCommand}
    {reply : CommandReply} (htree : w.files.IsTree)
    (hsplit : Command.ofArguments? arguments = some (.split s))
    (hbefore : Command.ofArguments? before = some (.run (s.inMemory c)))
    (hafter : Command.ofArguments? after = some (.run (s.onDocument c)))
    (hdone : (run arguments).runIn frontEnd w = (.ok reply, w₁)) (hcode : reply.exitCode = 0)
    (hplace : w₁.files.place? (Path.ofText s.output) = some p)
    (haside : s.IsAside c w.files w₁.files) :
    Agree frontEnd (IsNew w.files w₁.files) p before after (s.inMemory c) (s.onDocument c)
      w w₁ := by
  rw [run, hsplit] at hdone
  obtain ⟨invs, p', hinvs, hcalls, hstored⟩ := SplitCommand.exists_stored hdone hcode
  obtain rfl := Option.some.inj (hplace.symm.trans hstored.place)
  have hadds : World.Adds (IsNew w.files w₁.files) p w w₁ := ⟨hstored.adds, hcalls⟩
  have htree' := hstored.isTree htree
  have hbatch := SplitCommand.alike_batchIn (SplitCommand.targets_ne_nil hsplit) hinvs hstored
    haside.rules
  -- what the split wrote stands aside from where artifacts go
  have hdirectory (directory : Path) (h : c.settings.outputDirectory = .ok directory) :
      w.files.Aside (IsNew w.files w₁.files) p directory := haside.directory directory p h hplace
  have hexists : w.files.exists (Path.ofText (s.inMemory c).config) = .ok true :=
    exists_of_invocations hinvs
  have hexists' : w₁.files.exists (Path.ofText (s.onDocument c).config) = .ok true :=
    exists_of_read hstored.read
  obtain ⟨hsaid, hleft⟩ := RunCommand.said_run frontEnd hadds htree htree' hexists
    hexists' hbatch hdirectory
  refine ⟨?_, ?_, fun batch invs => hbatch.ok_iff (batch, invs), ?_, ?_⟩
  · rw [run, run, hbefore, hafter]
    exact hsaid
  · rw [run, run, hbefore, hafter]
    exact hleft
  · intro batch invs report hfound
    have hsettings := (RunCommand.settings_of_batchIn hfound).1
    exact (Batch.runIn_run_of_adds frontEnd invs (RunCommand.extension_of_batchIn hfound).2
      (RunCommand.length_extension_of_batchIn hfound) hadds htree htree' fun directory h =>
        hdirectory directory (hsettings ▸ h)).1.ok_iff report
  · intro batch invs directory hfound hplaced hmade
    exact Batch.exists_reaches_of_adds (RunCommand.extension_of_batchIn hfound).2
      (RunCommand.length_extension_of_batchIn hfound) hadds htree htree'
      (hdirectory directory hplaced) hmade

/-- A working directory with a document of invocations and one of rules. -/
def workplace (document : String) : FileSystem :=
  ⟨[(["work"], .directory), (["work", "cl.json"], .file (Utf8.encode document)),
    (["work", "rules.json"], .file (Utf8.encode "\x7b\x7d"))], ["work"]⟩

/-- A split of one input. -/
def splitOne (output : String) : List String :=
  ["split", "--config", "cl.json", "--file", "b.c", "--output", output]

/-- A run with some options more. -/
def runWith (config : String) (options : List String) : List String :=
  ["run", "--config", config, "--src-dir", "src", "--obj-dir", "obj"] ++ options

/-- A world with two inputs. -/
def twoInputs : World :=
  World.ofFiles (workplace "[\x7b\"input\": [\"a.c\", \"b.c\"]\x7d]")

/-- The world after one of the inputs was split off. -/
def splitInputs : World := ((run (splitOne "o.json")).runIn (fun _ _ => default) twoInputs).2

/-- The settings of a run with rules. -/
def runRules : RunCommand :=
  ⟨"", "src", "obj", [], [], 1, none, false, false, false, some "rules.json"⟩

/-- The split of one of two inputs. -/
def splitSecond : SplitCommand := ⟨"cl.json", ["b.c"], "o.json"⟩

/-- What the split writes is nothing to the run: nothing comes to be where its artifacts go. -/
theorem isAside_splitSecond : splitSecond.IsAside runRules twoInputs.files splitInputs.files := by
  have hplace : splitInputs.files.place? (Path.ofText splitSecond.output)
      = some ["work", "o.json"] := by decide +kernel
  have htree : splitInputs.files.IsTree := .of_entries (by decide +kernel) (by decide +kernel)
  refine ⟨fun directory p hdirectory hp => ?_, fun path octets hpath hread => ?_⟩
  · have hobj : runRules.settings.outputDirectory = .ok ⟨.relative, ["obj"]⟩ := by decide +kernel
    obtain rfl := Except.ok.inj (hobj.symm.trans hdirectory)
    obtain rfl := Option.some.inj (hplace.symm.trans hp)
    have hgoal : twoInputs.files.goal ⟨.relative, ["obj"]⟩ = ["work", "obj"] := by decide +kernel
    refine ⟨by decide +kernel, fun name => ⟨by rw [hgoal]; simp, fun hnew => ?_⟩⟩
    -- there is no directory that it could be in
    rw [hgoal] at hnew
    have hparent := htree.parent (["work", "obj"] ++ [name]) (by rw [hnew.2]; simp)
    have hnone : splitInputs.files.get? ["work", "obj"] = none := by decide +kernel
    rw [List.dropLast_concat, hnone] at hparent
    exact absurd hparent (by simp)
  · obtain rfl : "rules.json" = path := Option.some.inj hpath
    have hsame : splitInputs.files.read (Path.ofText "rules.json")
        = twoInputs.files.read (Path.ofText "rules.json") := by decide +kernel
    exact hsame.symm.trans hread

/-- In a small working directory a run on the document of a split agrees with one that splits in
memory. -/
theorem agree_splitSecond :
    twoInputs.files.IsTree ∧ splitSecond.IsAside runRules twoInputs.files splitInputs.files ∧
      Agree (fun _ _ => default) (IsNew twoInputs.files splitInputs.files) ["work", "o.json"]
        (runWith "cl.json" ["--split", "b.c", "--rules", "rules.json"])
        (runWith "o.json" ["--rules", "rules.json"])
        (splitSecond.inMemory runRules) (splitSecond.onDocument runRules) twoInputs
        splitInputs := by
  have htree : twoInputs.files.IsTree := .of_entries (by decide +kernel) (by decide +kernel)
  have hreply : ((run (splitOne "o.json")).runIn (fun _ _ => default) twoInputs).1
      = .ok ⟨0, "o.json\n", ""⟩ := by decide +kernel
  have hdone : (run (splitOne "o.json")).runIn (fun _ _ => default) twoInputs
      = (.ok ⟨0, "o.json\n", ""⟩, splitInputs) := by
    rw [← hreply]
    exact Prod.mk.eta.symm
  have hplace : splitInputs.files.place? (Path.ofText splitSecond.output)
      = some ["work", "o.json"] := by decide +kernel
  exact ⟨htree, isAside_splitSecond, agree_of_split htree (by decide +kernel) (by decide +kernel)
    (by decide +kernel) hdone rfl hplace isAside_splitSecond⟩

/-- The directory that a split makes for its document may be on the way to the rules: the run on the
document finds them, and the run that splits in memory does not. -/
theorem run_detour :
    let w := World.ofFiles (workplace "[]")
    let w₁ := ((run (splitOne "x/o.json")).runIn (fun _ _ => default) w).2
    ((run (splitOne "x/o.json")).runIn (fun _ _ => default) w).1.map (·.exitCode) = .ok 0 ∧
      ((run (runWith "x/o.json" ["--rules", "x/../rules.json"])).runIn
        (fun _ _ => default) w₁).1.map (·.exitCode) = .ok 0 ∧
      ((run (runWith "cl.json" ["--split", "b.c", "--rules", "x/../rules.json"])).runIn
        (fun _ _ => default) w).1.map (·.exitCode) = .ok 2 := by
  decide +kernel

end CommandLine

end DeclGraph
