import DeclGraph.Proofs.Batch.Step
import DeclGraph.Proofs.Except
import DeclGraph.Proofs.FileSystem.Local

/-!
# The course of a file

A file goes one of six ways (`FileState.courses`), and the rest of its outcome agrees with the one
that it went (`Outcome.Accurate`).  `Task.ComesTo` says which outcomes a task may come to with what
the parser gave for it, and every step of a worker keeps to that (`Worker.Lawful.step`).

`Worker.leads_of_step` says once where a step may lead: how a worker comes to give its lock back,
and how it comes to its end.
-/

namespace DeclGraph

open FileSystem

/-! ### Errors among diagnostics -/

namespace Graph

variable {g : Graph} {lines : List String}

/-- Where a diagnostic is an error there is a line for it. -/
theorem diagnosticLines_ne_nil {all : Bool} {ds : List Value}
    (hlines : g.diagnosticLines all ds = .ok lines) (herrors : g.anyError ds = .ok true) :
    lines ≠ [] := by
  induction ds generalizing lines with
  | nil => exact absurd herrors (by simp [anyError])
  | cons d rest ih =>
    -- a diagnostic that is shown has its line, so only those that are left out lead on
    have hshown {line? : Option String} {others : List String}
        (hline : some <$> g.display d = .ok line?)
        (hlines : pure (line?.toList ++ others) = Except.ok (ε := TextError) lines) :
        lines ≠ [] := by
      rw [← Except.ok.inj hlines]
      cases hd : g.display d with
      | error e => exact absurd (hd ▸ hline) (by simp [Functor.map, Except.map])
      | ok line =>
        rw [hd] at hline
        rw [← Except.ok.inj hline]
        exact List.cons_ne_nil _ _
    rw [anyError] at herrors
    obtain ⟨isError, hd, herrors⟩ := exists_of_bind_eq_ok herrors
    rw [diagnosticLines] at hlines
    cases all with
    | true =>
      rw [if_pos rfl] at hlines
      obtain ⟨line?, hline, hlines⟩ := exists_of_bind_eq_ok hlines
      obtain ⟨others, -, hlines⟩ := exists_of_bind_eq_ok hlines
      exact hshown hline hlines
    | false =>
      rw [if_neg Bool.false_ne_true] at hlines
      obtain ⟨isError', hd', hlines⟩ := exists_of_bind_eq_ok hlines
      obtain rfl := Except.ok.inj (hd.symm.trans hd')
      cases isError with
      | true =>
        rw [if_pos rfl] at hlines
        obtain ⟨line?, hline, hlines⟩ := exists_of_bind_eq_ok hlines
        obtain ⟨others, -, hlines⟩ := exists_of_bind_eq_ok hlines
        exact hshown hline hlines
      | false =>
        rw [if_neg Bool.false_ne_true] at hlines
        obtain ⟨line?, hline, hlines⟩ := exists_of_bind_eq_ok hlines
        obtain rfl := Except.ok.inj hline
        obtain ⟨others, hothers, hlines⟩ := exists_of_bind_eq_ok hlines
        rw [← Except.ok.inj hlines]
        exact ih hothers herrors

/-- The report of a compilation with errors says something. -/
theorem describe_ne_nil {c : Value} {warnings info : Bool}
    (hlines : g.describe c warnings info = .ok lines) (herrors : g.hasErrors c = .ok true) :
    lines ≠ [] := by
  unfold hasErrors at herrors
  obtain ⟨diagnostics, hmember, herrors⟩ := exists_of_bind_eq_ok herrors
  obtain ⟨ds, hitems, herrors⟩ := exists_of_bind_eq_ok herrors
  unfold describe at hlines
  -- the report reads the list of diagnostics that the errors are looked for in
  obtain ⟨diagnostics', hmember', hlines⟩ := exists_of_bind_eq_ok hlines
  obtain rfl := Except.ok.inj (hmember.symm.trans hmember')
  obtain ⟨ds', hitems', hlines⟩ := exists_of_bind_eq_ok hlines
  obtain rfl := Except.ok.inj (hitems.symm.trans hitems')
  obtain ⟨first, hfirst, hlines⟩ := exists_of_bind_eq_ok hlines
  have hne := diagnosticLines_ne_nil hfirst herrors
  split at hlines
  · obtain ⟨enums, -, hlines⟩ := exists_of_bind_eq_ok hlines
    obtain ⟨functions, -, hlines⟩ := exists_of_bind_eq_ok hlines
    obtain ⟨classes, -, hlines⟩ := exists_of_bind_eq_ok hlines
    obtain ⟨typedefs, -, hlines⟩ := exists_of_bind_eq_ok hlines
    rw [← Except.ok.inj hlines]
    simp [hne]
  · rwa [← Except.ok.inj hlines]

end Graph

/-! ### Outcomes -/

/-- The ways that a file may go. -/
def FileState.courses : List (List FileState) :=
  [[.pending, .skipped],
    [.pending, .parsing, .timedOut],
    [.pending, .parsing, .failed],
    [.pending, .parsing, .parseFailed, .done],
    [.pending, .parsing, .parsed, .dumping, .done],
    [.pending, .parsing, .parsed, .dumping, .failed]]

/-- The outcome of a task agrees with the states that it went through, and with what the parser gave
for it. -/
structure Outcome.Accurate (o : Outcome) (t : Task) (compilation? : Option Compilation) :
    Prop where
  /-- It is about the task. -/
  task : o.source = t.source ∧ o.artifact = t.artifact
  /-- The file went one of the ways. -/
  course : o.states ∈ FileState.courses
  /-- The file was dumped if it went to the end, and only then. -/
  dumped : o.status = .dumped ↔ o.states = [.pending, .parsing, .parsed, .dumping, .done]
  /-- The parse was timed if it was completed. -/
  parseMs : o.parseMs?.isSome ↔ .parseFailed ∈ o.states ∨ .parsed ∈ o.states
  /-- Writing was timed if the file was dumped. -/
  dumpMs : o.dumpMs?.isSome ↔ o.status = .dumped
  /-- Something went wrong if the file timed out or failed. -/
  error : o.error?.isSome ↔ o.status = .timedOut ∨ o.status = .failed
  /-- A source with errors has a report. -/
  refused : o.status = .parseFailed → o.report ≠ [] ∧
    ∃ c, compilation? = some c ∧ c.graph.hasErrors c.root = .ok true
  /-- Only compilations without errors come to be dumped. -/
  clean : .dumping ∈ o.states →
    ∃ c, compilation? = some c ∧ c.graph.hasErrors c.root = .ok false

/-- The outcomes that a task may come to, with what the parser gave for it. -/
inductive Task.ComesTo (t : Task) (compilation? : Option Compilation) : Outcome → Prop
  | skipped : ComesTo t compilation? t.skipped
  | timedOut (error : String) : ComesTo t compilation? (t.timedOut error)
  | failedToParse (error : String) : ComesTo t compilation? (t.failedToParse error)
  | parseFailed {c : Compilation} {report : List String} (parseMs : Int)
    (parsed : compilation? = some c) (errors : c.graph.hasErrors c.root = .ok true)
    (told : report ≠ []) : ComesTo t compilation? (t.parseFailed parseMs report)
  | dumped {c : Compilation} (parseMs dumpMs : Int) (report : List String)
    (parsed : compilation? = some c) (clean : c.graph.hasErrors c.root = .ok false) :
    ComesTo t compilation? (t.dumped parseMs dumpMs report)
  | failedToDump {c : Compilation} (parseMs : Int) (report : List String) (error : String)
    (parsed : compilation? = some c) (clean : c.graph.hasErrors c.root = .ok false) :
    ComesTo t compilation? (t.failedToDump parseMs report error)

theorem Task.ComesTo.accurate {t : Task} {compilation? : Option Compilation} {o : Outcome}
    (h : t.ComesTo compilation? o) : o.Accurate t compilation? := by
  cases h with
  | skipped => constructor <;> simp [Task.skipped, Outcome.status, FileState.courses]
  | timedOut => constructor <;> simp [Task.timedOut, Outcome.status, FileState.courses]
  | failedToParse => constructor <;> simp [Task.failedToParse, Outcome.status, FileState.courses]
  | parseFailed parseMs parsed errors told =>
    constructor <;> simp [Task.parseFailed, Outcome.status, FileState.courses, parsed, errors, told]
  | dumped parseMs dumpMs report parsed clean =>
    constructor <;> simp [Task.dumped, Outcome.status, FileState.courses, parsed, clean]
  | failedToDump parseMs report error parsed clean =>
    constructor <;> simp [Task.failedToDump, Outcome.status, FileState.courses, parsed, clean]

/-! ### What workers come to -/

/-- Something is being written of the file. -/
def Phase.Dumps : Phase → Prop
  | opening _ | writing .. | replacing _ | discarding .. => True
  | looking | claiming | rechecking | yielding | parsing | releasing _ | finished _ => False

namespace Worker

variable {v v' : Worker} {w w' : World} {frontEnd : FrontEnd} {o : Outcome} {ending : Ending}

/-- What the parser gave a worker, if that is a compilation. -/
def compilation? (v : Worker) : Option Compilation := v.attempt?.bind fun a => a.result.toOption

/-- The compilation of a worker is what the front end gave that answered its parse. -/
theorem AnsweredBy.result_eq {c : Compilation} (h : v.AnsweredBy frontEnd)
    (hc : v.compilation? = some c) :
    (frontEnd v.task.source v.task.options).result = .ok c := by
  obtain ⟨a, ha, hok⟩ := Option.bind_eq_some_iff.1 hc
  rw [← h a ha]
  cases hresult : a.result with
  | ok c' =>
    rw [hresult] at hok
    rw [Option.some.inj hok]
  | error f =>
    rw [hresult] at hok
    exact absurd hok (by simp [Except.toOption])

/-- A worker has a compilation without errors. -/
def IsClean (v : Worker) : Prop :=
  ∃ c, v.compilation? = some c ∧ c.graph.hasErrors c.root = .ok false

/-- A worker comes to outcomes that its task may come to, and dumps only what has no errors. -/
def Lawful (v : Worker) : Prop :=
  match v.phase with
  | .looking | .claiming | .rechecking | .yielding | .parsing => True
  | .opening _ | .writing .. | .replacing _ | .discarding .. => v.IsClean
  | .releasing ending => ∀ o, ending = .ok o → v.task.ComesTo v.compilation? o ∧ o.status ≠ .skipped
  | .finished ending => ∀ o, ending = .ok o → v.task.ComesTo v.compilation? o

theorem Lawful.isClean (h : v.Lawful) (hdumps : v.phase.Dumps) : v.IsClean := by
  obtain ⟨b, t, phase, attempt?⟩ := v
  cases phase with
  | opening | writing | replacing | discarding => exact h
  | looking | claiming | rechecking | yielding | parsing | releasing | finished =>
    exact absurd hdumps id

theorem Lawful.comesTo (h : v.Lawful) (hphase : v.phase = .finished (.ok o)) :
    v.task.ComesTo v.compilation? o := by
  rw [Lawful, hphase] at h
  exact h o rfl

section

variable (b : Batch) (t : Task) {c : Compilation} {attempt? : Option Attempt}
  (hc : attempt?.bind (fun a => a.result.toOption) = some c)

include hc

theorem lawful_failDump (hclean : c.graph.hasErrors c.root = .ok false) (parseMs : Int)
    (report : List String) (why : Failure) :
    Lawful ⟨b, t, (t.failDump parseMs report why).phase, attempt?⟩ := by
  have hfailed (error : String) :
      Lawful ⟨b, t, .releasing (.ok (t.failedToDump parseMs report error)), attempt?⟩ := by
    intro o ho
    obtain rfl := Except.ok.inj ho
    exact ⟨.failedToDump parseMs report error hc hclean, by
      simp [Outcome.status, Task.failedToDump]⟩
  unfold Task.failDump
  split
  · exact fun o ho => absurd ho (by simp)
  · split_ifs
    · exact hfailed _
    · exact hfailed _

theorem lawful_report (parseMs : Int) :
    Lawful ⟨b, t, (t.report b.settings c parseMs).phase, attempt?⟩ := by
  unfold Task.report
  dsimp only
  split
  · exact fun o ho => absurd ho (by simp)
  · next lines hlines =>
    split
    · exact fun o ho => absurd ho (by simp)
    · next herrors =>
      intro o ho
      obtain rfl := Except.ok.inj ho
      exact ⟨.parseFailed parseMs hc herrors (Graph.describe_ne_nil hlines herrors), by
        simp [Outcome.status, Task.parseFailed]⟩
    · next hclean =>
      unfold Task.startDump
      dsimp only
      split
      · exact ⟨c, hc, hclean⟩
      · exact lawful_failDump b t hc hclean ..

end

theorem lawful_afterParse (b : Batch) (t : Task) (a : Attempt) :
    Lawful ⟨b, t, (t.afterParse b.settings a).phase, some a⟩ := by
  have hlate (error : String) :
      Lawful ⟨b, t, .releasing (.ok (t.timedOut error)), some a⟩ := by
    intro o ho
    obtain rfl := Except.ok.inj ho
    exact ⟨.timedOut error, by simp [Outcome.status, Task.timedOut]⟩
  have hfailed (error : String) :
      Lawful ⟨b, t, .releasing (.ok (t.failedToParse error)), some a⟩ := by
    intro o ho
    obtain rfl := Except.ok.inj ho
    exact ⟨.failedToParse error, by simp [Outcome.status, Task.failedToParse]⟩
  -- a parse that took too long counts as late, whatever came of it
  unfold Task.afterParse
  dsimp only
  split_ifs
  · exact hlate _
  · split
    · next c hc =>
      refine lawful_report b t ?_ _
      rw [Option.bind_some, hc]
      rfl
    · split
      · exact hlate _
      · exact hfailed _
      · exact hfailed _
      · exact hfailed _

/-- Every step of a worker keeps to what its task may come to. -/
theorem Lawful.step (h : v.Lawful) (hstep : v.step frontEnd w = some (v', w')) : v'.Lawful := by
  obtain ⟨b, t, phase, attempt?⟩ := v
  have hskipped : Lawful ⟨b, t, .finished (.ok t.skipped), attempt?⟩ := by
    intro o ho
    obtain rfl := Except.ok.inj ho
    exact .skipped
  have herror (e : Failure) : Lawful ⟨b, t, .finished (.error e), attempt?⟩ :=
    fun o ho => absurd ho (by simp)
  cases moves_of_step hstep with
  | begins | claimed | late | clear => trivial
  | found | elsewhere | yielded => exact hskipped
  | unnamed | hidden | unclaimed | lost | unyielded | unreleased => exact herror _
  | parsed => exact lawful_afterParse b t _
  | opened | unspelled | unopened | wrote | unwritten | unreplaced => exact h
  | @replaced d =>
    obtain ⟨c, hc, hclean⟩ := h
    intro o ho
    obtain rfl := Except.ok.inj ho
    exact ⟨.dumped d.parseMs 0 d.report hc hclean, by simp [Outcome.status, Task.dumped]⟩
  | discarded | undiscarded =>
    obtain ⟨c, hc, hclean⟩ := h
    exact lawful_failDump b t hc hclean ..
  | released =>
    -- who gives its lock back was decided before
    exact fun o ho => (h o ho).1

/-! ### How locks are given back -/

/-- Where a step leads: a worker goes on, gives its lock back, or comes to its end. -/
inductive Leads (v : Worker) (fs fs' : FileSystem) : Phase → Prop
  /-- The worker goes on, with the lock if it has it. -/
  | goesOn {phase : Phase} (undecided : phase.ending? = none) (keeps : phase ≠ .yielding)
    (holds : v.phase.Holds → phase.Holds) : Leads v fs fs' phase
  /-- The artifact has come up in the meantime. -/
  | yields (same : fs' = fs) (there : fs.at? v.artifact ≠ none) : Leads v fs fs' .yielding
  /-- The work is done. -/
  | releases {ending : Ending} (works : v.phase.Works) : Leads v fs fs' (.releasing ending)
  /-- The artifact is there. -/
  | found (phase : v.phase = .looking) (same : fs' = fs) (there : fs.at? v.artifact ≠ none) :
    Leads v fs fs' (.finished (.ok v.task.skipped))
  /-- Somebody has the lock. -/
  | claimed (phase : v.phase = .claiming) (same : fs' = fs)
    (there : fs.at? (lockPath v.artifact) ≠ none) :
    Leads v fs fs' (.finished (.ok v.task.skipped))
  /-- The lock is given back since the artifact is there. -/
  | yielded (phase : v.phase = .yielding) : Leads v fs fs' (.finished (.ok v.task.skipped))
  /-- The lock is given back after the work. -/
  | released {ending : Ending} (phase : v.phase = .releasing ending) :
    Leads v fs fs' (.finished ending)
  /-- Something cannot be asked for. -/
  | raised (e : Failure) (same : fs' = fs) : Leads v fs fs' (.finished (.error e))

theorem leads_of_step (h : v.step frontEnd w = some (v', w')) :
    v.Leads w.files w'.files v'.phase := by
  obtain ⟨b, t, phase, attempt?⟩ := v
  -- the lock is given back next, whether or not the file beside the artifact could be removed
  have hfails (d : Dump) (why why' : Failure) :
      Leads ⟨b, t, .discarding d why, attempt?⟩ w.files w'.files
        (t.failDump d.parseMs d.report why').phase := by
    obtain ⟨ending, hending, -⟩ := t.phase_failDump d.parseMs d.report why'
    rw [hending]
    exact .releases trivial
  cases moves_of_step h with
  | found same there => exact .found rfl same (at?_ne_none_of_exists there)
  | begins => exact .goesOn rfl (by simp) (fun holds => absurd holds id)
  | elsewhere same there => exact .claimed rfl same (at?_ne_none_of_createExclusive there)
  | late same there => exact .yields same (at?_ne_none_of_exists there)
  | yielded => exact .yielded rfl
  | parsed =>
    rcases t.phase_afterParse b.settings (frontEnd t.source t.options) with
      ⟨ending, hending, -⟩ | ⟨c, snapshot, parseMs, lines, -, -, hopening⟩
    · rw [hending]
      exact .releases trivial
    · rw [hopening]
      exact .goesOn rfl (by simp) (fun _ => trivial)
  | claimed | clear | opened | unspelled | unopened | wrote | unwritten | unreplaced =>
    exact .goesOn rfl (by simp) (fun _ => trivial)
  | replaced => exact .releases trivial
  | discarded | undiscarded => exact hfails ..
  | released => exact .released rfl
  | unnamed same | hidden same | unclaimed same | lost same | unyielded same | unreleased same =>
    exact .raised _ same

end Worker

end DeclGraph
