import DeclGraph.Proofs.Batch.Escape
import DeclGraph.Proofs.Projection.Accepted

/-!
# Rules never stop a batch

Main statement: `Rules.IsAccepted.lasts`.  A batch is stopped by its rules when a worker finds that
they do not fit what it is to write.  With accepted rules, and parses that give graphs of instances,
no worker ever does: a worker that is about to write has a graph of instances, and behind that no
failure is one of the rules (`Phase.IsSpared`).  Every step keeps that (`Worker.IsSpared.step`), so
it holds for any number of workers in any order.
-/

namespace DeclGraph

open Encoding

/-- The failure is another one than that the rules do not fit. -/
def Failure.IsOther (f : Failure) : Prop := ∀ e, f ≠ .rules e

theorem Failure.isOther_ofEncoding {e : EncodeError} (h : e.IsOfValue) :
    (Failure.ofEncoding e).IsOther := by
  cases e with
  | rules e => exact absurd h id
  | unencodable typeName => exact fun e => by simp [ofEncoding]

/-- With accepted rules a graph of instances can be written, or a value in it has no form. -/
theorem Failure.isOther_of_dump {rules : Rules} (hrules : rules.IsAccepted) {d : Dump}
    {e : EncodeError} (h : d.graph.IsDeclared) (he : d.graph.dump rules d.root = .error e) :
    (Failure.ofEncoding e).IsOther := by
  have hdump : FailsIn EncodeError.IsOfValue (d.graph.dump rules d.root) :=
    (hrules.encode h d.root).map _
  exact isOther_ofEncoding (hdump.kind e he)

/-! ### Phases -/

namespace Phase

/-- The rules are not at fault: what is to be written is a graph of instances, and nothing has gone
wrong that they are to blame for. -/
def IsSpared : Phase → Prop
  | looking | claiming | rechecking | yielding | parsing | writing .. | replacing _ => True
  | opening d => d.graph.IsDeclared
  | discarding _ why => why.IsOther
  | releasing ending | finished ending => FailsIn Failure.IsOther ending

end Phase

namespace Task

variable (t : Task)

theorem isSpared_failDump (parseMs : Int) (report : List String) {why : Failure}
    (h : why.IsOther) : (t.failDump parseMs report why).phase.IsSpared := by
  unfold failDump
  split
  · next e => exact absurd rfl (h e)
  · split
    · exact .ok _
    · exact .ok _

theorem isSpared_report (s : BatchSettings) {c : Compilation} (hc : c.graph.IsDeclared)
    (parseMs : Int) : (t.report s c parseMs).phase.IsSpared := by
  have htext (e : TextError) : Failure.IsOther (.text e) := fun r => by simp
  unfold report
  dsimp only
  split
  · exact .error (htext _)
  · split
    · exact .error (htext _)
    · exact .ok _
    · unfold startDump
      dsimp only
      split
      · next snapshot hsnapshot => exact hc.snapshot hsnapshot
      · exact t.isSpared_failDump _ _ (htext _)

/-- Where the parser gives a graph of instances, that is what is to be written. -/
theorem isSpared_afterParse (s : BatchSettings) {a : Attempt}
    (h : ∀ c, a.result = .ok c → c.graph.IsDeclared) : (t.afterParse s a).phase.IsSpared := by
  unfold afterParse
  dsimp only
  split
  · exact .ok _
  · split
    · next c hc => exact t.isSpared_report s (h c hc) _
    · split
      · exact .ok _
      · exact .ok _
      · exact .ok _
      · exact .ok _

end Task

/-! ### Workers -/

namespace Worker

variable {v v' : Worker} {w w' : World} {frontEnd : FrontEnd}

/-- The rules are not at fault, if the parser gave the worker a graph of instances. -/
def IsSpared (v : Worker) : Prop :=
  (∀ c, v.compilation? = some c → c.graph.IsDeclared) → v.phase.IsSpared

/-- Every step with accepted rules spares them. -/
theorem IsSpared.step (hrules : v.batch.rules.IsAccepted) (h : v.IsSpared)
    (hstep : v.step frontEnd w = some (v', w')) : v'.IsSpared := by
  have hfile (e : FileError) : Failure.IsOther (.file e) := fun r => by simp
  have hfailed (e : FileError) : Phase.IsSpared (.finished (.error (.file e))) := .error (hfile e)
  obtain ⟨b, t, phase, attempt?⟩ := v
  cases moves_of_step hstep with
  | begins | claimed | late | clear | opened | wrote => exact fun _ => trivial
  | found | elsewhere | yielded | replaced => exact fun _ => .ok _
  | unnamed => exact fun _ => .error fun r => by simp
  | hidden | unclaimed | lost | unyielded | unreleased => exact fun _ => hfailed _
  | parsed =>
    -- what the parser has just given counts from now on
    refine fun hdeclared => t.isSpared_afterParse b.settings fun c hc => hdeclared c ?_
    rw [compilation?, Option.bind_some, hc]
    rfl
  | unspelled _ refused => exact fun hdeclared => Failure.isOther_of_dump hrules (h hdeclared) refused
  | unopened | unwritten | unreplaced => exact fun _ => hfile _
  | discarded => exact fun hdeclared => t.isSpared_failDump _ _ (h hdeclared)
  | undiscarded => exact fun _ => t.isSpared_failDump _ _ (hfile _)
  | released => exact fun hdeclared => h hdeclared

end Worker

/-! ### Batches -/

namespace Pool

variable {b : Batch} {directory : Path} {invs : List Invocation} {w : World} {p : Pool}

/-- The rules do not stop a pool. -/
structure IsSpared (p : Pool) : Prop where
  /-- No job fails on account of the rules. -/
  endings : ∀ job ∈ p.jobs, ∀ e, job.ending? ≠ some (.error (.rules e))
  /-- No task is cancelled. -/
  cancelled : ∀ t, .cancelled t ∉ p.jobs
  /-- The rules are not what the pool fails with. -/
  result : ∀ e, p.result ≠ .error (.rules e)

/-- Accepted rules do not stop a pool whose workers get graphs of instances from the parser. -/
theorem isSpared_of_reaches (hrules : b.rules.IsAccepted)
    (hreach : Reaches b (b.pool directory invs w) p)
    (hdeclared : ∀ v c, .taken v ∈ p.jobs → v.compilation? = some c → c.graph.IsDeclared) :
    p.IsSpared := by
  have hworkers : ∀ v ∈ (p.crew b).workers, v.batch.rules.IsAccepted → v.IsSpared := by
    refine (crew_reaches hreach).forall_workers (fun {_ v v' _ _} hv hstep => ?_) ?_
    · rw [(Worker.task_of_step hstep).1]
      exact fun hrules => (hv hrules).step hrules hstep
    · intro v hv _ _
      rw [Batch.isNew_pool b directory invs w v hv]
      trivial
  have hendings : ∀ job ∈ p.jobs, ∀ e, job.ending? ≠ some (.error (.rules e)) := by
    intro job hjob e hended
    obtain ⟨v, rfl, hphase⟩ := Job.ending?_eq_some_iff.1 hended
    obtain ⟨i, hi⟩ := List.mem_iff_getElem?.1 hjob
    have hbatch : v.batch = b := (Batch.task_of_reaches hreach hi).1
    have hspared : v.phase.IsSpared :=
      hworkers v (List.mem_map_of_mem (f := Job.worker b) hjob) (hbatch ▸ hrules)
        fun c hc => hdeclared v c hjob hc
    rw [hphase] at hspared
    exact hspared.kind _ rfl e rfl
  refine ⟨hendings, fun t ht => ?_, fun e he => ?_⟩
  · -- a task is only cancelled on account of a job that failed so
    obtain ⟨front, job, back, e, hjobs, hended, -⟩ :=
      stops_of_cancelled hreach (Batch.not_cancelled_mem_pool b directory invs w) ht
    exact hendings job (hjobs ▸ List.mem_append_right _ List.mem_cons_self) e hended
  · obtain ⟨job, hjob, hended⟩ := List.mem_filterMap.1 (Batch.mem_of_collect he)
    exact hendings job hjob e hended

/-- A pool that fails on account of accepted rules was given something that is no graph of
instances. -/
theorem exists_undeclared_of_result (hrules : b.rules.IsAccepted)
    (hreach : Reaches b (b.pool directory invs w) p) {e : RulesError}
    (hresult : p.result = .error (.rules e)) :
    ∃ v c, .taken v ∈ p.jobs ∧ v.compilation? = some c ∧ ¬ c.graph.IsDeclared := by
  by_contra hnone
  have hspared : p.IsSpared := isSpared_of_reaches hrules hreach fun v c hv hc => by
    by_contra hundeclared
    exact hnone ⟨v, c, hv, hc, hundeclared⟩
  exact hspared.result e hresult

end Pool

namespace Batch

variable {b : Batch} {frontEnd : FrontEnd}

/-- A batch that fails on account of accepted rules was given something that is no graph of
instances. -/
theorem exists_undeclared_of_run (hrules : b.rules.IsAccepted) (hworkers : 0 < b.settings.workers)
    {directory : Path} (hdirectory : b.settings.outputDirectory = .ok directory)
    {invs : List Invocation} {w : World} {e : RulesError}
    (hfailed : ((b.run invs).runIn frontEnd w).1 = .error (.rules e)) :
    ∃ c, (∃ t ∈ b.tasks directory invs, (frontEnd t.source t.options).result = .ok c) ∧
      ¬ c.graph.IsDeclared := by
  rcases hmake : w.files.makeDirectories directory true with ⟨files, e' | u⟩
  · rw [runIn_run_of_refused hdirectory hmake] at hfailed
    exact absurd hfailed (by simp)
  · obtain ⟨p, hreach, -, hanswered, -, hresult⟩ :=
      exists_reaches_result invs frontEnd hworkers hdirectory (congrArg Prod.snd hmake)
    obtain ⟨v, c, hv, hc, hundeclared⟩ :=
      Pool.exists_undeclared_of_result hrules hreach (hresult.trans hfailed)
    exact ⟨c, ⟨v.task, mem_tasks_of_reaches hreach hv, (hanswered v hv).result_eq hc⟩, hundeclared⟩

/-- Accepted rules are not what a batch fails with that handles its files one after another. -/
theorem run_ne_rules (hrules : b.rules.IsAccepted) (hworkers : 0 < b.settings.workers)
    (hdeclared : ∀ source options c, (frontEnd source options).result = .ok c →
      c.graph.IsDeclared)
    (invs : List Invocation) (w : World) (e : RulesError) :
    ((b.run invs).runIn frontEnd w).1 ≠ .error (.rules e) := by
  intro hfailed
  cases hdirectory : b.settings.outputDirectory with
  | error e' =>
    rw [runIn_run_of_unnamed hdirectory] at hfailed
    exact absurd hfailed (by simp)
  | ok directory =>
    obtain ⟨c, ⟨t, -, hc⟩, hundeclared⟩ :=
      exists_undeclared_of_run hrules hworkers hdirectory hfailed
    exact hundeclared (hdeclared _ _ c hc)

end Batch

/-! ### Accepted rules -/

/-- Rules that never fail for graphs of instances. -/
structure Rules.Lasts (rules : Rules) : Prop where
  /-- They do not keep a graph of instances from being written. -/
  encode : ∀ (g : Graph) (root : Value), g.IsDeclared →
    ∀ e, g.encode rules root ≠ .error (.rules e)
  /-- They do not stop a batch, whatever any number of workers do in any order. -/
  pool : ∀ (b : Batch) (directory : Path) (invs : List Invocation) (w : World) (p : Pool),
    b.rules = rules → Pool.Reaches b (b.pool directory invs w) p →
    (∀ v c, .taken v ∈ p.jobs → v.compilation? = some c → c.graph.IsDeclared) → p.IsSpared
  /-- They are not what a batch fails with. -/
  run : ∀ (b : Batch) (invs : List Invocation) (frontEnd : FrontEnd) (w : World),
    b.rules = rules → 0 < b.settings.workers →
    (∀ source options c, (frontEnd source options).result = .ok c → c.graph.IsDeclared) →
    ∀ e, ((b.run invs).runIn frontEnd w).1 ≠ .error (.rules e)

/-- **Rules that were accepted never fail later**, whether they were made or read from a file: not
for any graph of instances of the kinds, and so not in any batch of such graphs. -/
theorem Rules.IsAccepted.lasts {rules : Rules} (h : rules.IsAccepted) : rules.Lasts where
  encode _ root hg e he := (h.encode hg root).kind (.rules e) he
  pool _ _ _ _ _ hrules hreach hdeclared :=
    Pool.isSpared_of_reaches (hrules ▸ h) hreach hdeclared
  run _ invs _ w hrules hworkers hdeclared :=
    Batch.run_ne_rules (hrules ▸ h) hworkers hdeclared invs w

/-- Rules with a whitelist that repeats a name. -/
def narrowRules : Rules :=
  ⟨["parent"], [("class", ["fields", "name", "fields"]), ("location", ["line"])]⟩

/-- A class that holds itself, with a field whose parent is missing, and a place of a type that has
one more field than other places. -/
def selfHolding : Graph where
  nodes := #[
    .make .record [("name", .text "s"), ("fields", .list [.node 1])],
    .make .field [("name", .list [.node 2]), ("type", .node 0), ("parent", .node 7)],
    ⟨.custom "Position" (some "location"),
      [("file", .null), ("line", .int 3), ("column", .null), ("unit", .text "mm")]⟩]

theorem isDeclared_selfHolding : selfHolding.IsDeclared := by
  intro n hn
  obtain rfl | rfl | rfl : n = _ ∨ n = _ ∨ n = _ := by simpa [selfHolding] using hn
  · exact ⟨.record, Node.isInstance_make _ _⟩
  · exact ⟨.field, Node.isInstance_make _ _⟩
  · exact ⟨.location, rfl, by decide⟩

/-- A batch with these rules. -/
def narrowBatch : Batch := { Batch.smallBatch with rules := narrowRules }

/-- These rules never fail, neither for that graph nor in that batch. -/
theorem lasts_narrowRules :
    Rules.make? narrowRules.blacklist narrowRules.whitelists Rules.standardKinds
        = .ok narrowRules ∧ selfHolding.IsDeclared ∧
      (∀ e, selfHolding.encode narrowRules (.node 0) ≠ .error (.rules e)) ∧
      ∀ e, ((narrowBatch.run [Batch.smallInvocation]).runIn Crew.findsNothing .fresh).1
        ≠ .error (.rules e) := by
  have hmake : Rules.make? narrowRules.blacklist narrowRules.whitelists Rules.standardKinds
      = .ok narrowRules := rfl
  have h : narrowRules.Lasts := Rules.IsAccepted.lasts (.made hmake)
  refine ⟨hmake, isDeclared_selfHolding, h.encode _ _ isDeclared_selfHolding,
    h.run narrowBatch _ _ _ rfl (by decide) ?_⟩
  -- what is found is a compilation and nothing else
  intro source options c hc
  obtain rfl := Except.ok.inj hc
  intro n hn
  obtain rfl : n = _ := by simpa using hn
  exact ⟨.compilation, Node.isInstance_make _ _⟩

end DeclGraph
