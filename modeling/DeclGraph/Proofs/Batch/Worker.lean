import DeclGraph.Batch.Run
import DeclGraph.Program.World
import DeclGraph.Proofs.Batch.Seat

/-!
# Workers

A `Worker` handles one task of a batch, one answered request at a time (`Worker.step`).  Any number
of workers may take their steps in any order, and the parser may answer anything; what a worker
gets from the parser is its own (`Worker.attempt?`).

The text that a worker is to write is read off its attempt (`Worker.Writes`), and
`Task.phase_afterParse` says what can come of an attempt.
-/

namespace DeclGraph

/-! ### Endings -/

/-- The file was dumped. -/
def Ending.IsDumped : Ending → Prop
  | .ok o => o.status = .dumped
  | .error _ => False

theorem not_isDumped_error (f : Failure) : ¬ Ending.IsDumped (.error f) := fun h => h

namespace Task

theorem not_isDumped_skipped (t : Task) : ¬ Ending.IsDumped (.ok t.skipped) := by
  simp [Ending.IsDumped, Outcome.status, skipped]

theorem isDumped_dumped (t : Task) (parseMs dumpMs : Int) (report : List String) :
    Ending.IsDumped (.ok (t.dumped parseMs dumpMs report)) := by
  simp [Ending.IsDumped, Outcome.status, dumped]

/-- A dump that fails gives the lock back, and nothing is dumped. -/
theorem phase_failDump (t : Task) (parseMs : Int) (report : List String) (why : Failure) :
    ∃ ending, (t.failDump parseMs report why).phase = .releasing ending ∧ ¬ ending.IsDumped := by
  have hfailed (error : String) :
      ¬ Ending.IsDumped (.ok (t.failedToDump parseMs report error)) := by
    simp [Ending.IsDumped, Outcome.status, failedToDump]
  unfold failDump
  split
  · exact ⟨_, rfl, not_isDumped_error _⟩
  · split_ifs
    · exact ⟨_, rfl, hfailed _⟩
    · exact ⟨_, rfl, hfailed _⟩

/-- A dump starts with the snapshot of the compilation, or the lock is given back. -/
theorem phase_startDump (t : Task) (c : Compilation) (parseMs : Int) (report : List String) :
    (∃ ending, (t.startDump c parseMs report).phase = .releasing ending ∧ ¬ ending.IsDumped) ∨
      ∃ s, c.graph.snapshot c.root = .ok s ∧
        (t.startDump c parseMs report).phase = .opening ⟨s.graph, s.root, parseMs, report⟩ := by
  unfold startDump
  dsimp only
  split
  · next s hs => exact .inr ⟨s, hs, rfl⟩
  · exact .inl (t.phase_failDump ..)

/-- A compilation is dumped, or the lock is given back. -/
theorem phase_report (t : Task) (s : BatchSettings) (c : Compilation) (parseMs : Int) :
    (∃ ending, (t.report s c parseMs).phase = .releasing ending ∧ ¬ ending.IsDumped) ∨
      ∃ snapshot lines, c.graph.snapshot c.root = .ok snapshot ∧
        (t.report s c parseMs).phase
          = .opening ⟨snapshot.graph, snapshot.root, parseMs, lines⟩ := by
  unfold report
  dsimp only
  split
  · exact .inl ⟨_, rfl, not_isDumped_error _⟩
  · next lines _ =>
    split
    · exact .inl ⟨_, rfl, not_isDumped_error _⟩
    · exact .inl ⟨_, rfl, by simp [Ending.IsDumped, Outcome.status, parseFailed]⟩
    · rcases t.phase_startDump c parseMs lines with h | ⟨snapshot, hs, h⟩
      · exact .inl h
      · exact .inr ⟨snapshot, lines, hs, h⟩

/-- What was parsed is dumped, or the lock is given back. -/
theorem phase_afterParse (t : Task) (s : BatchSettings) (a : Attempt) :
    (∃ ending, (t.afterParse s a).phase = .releasing ending ∧ ¬ ending.IsDumped) ∨
      ∃ c snapshot parseMs lines, a.result = .ok c ∧ c.graph.snapshot c.root = .ok snapshot ∧
        (t.afterParse s a).phase
          = .opening ⟨snapshot.graph, snapshot.root, parseMs, lines⟩ := by
  have hlate (error : String) : ¬ Ending.IsDumped (.ok (t.timedOut error)) := by
    simp [Ending.IsDumped, Outcome.status, timedOut]
  have hfailed (error : String) : ¬ Ending.IsDumped (.ok (t.failedToParse error)) := by
    simp [Ending.IsDumped, Outcome.status, failedToParse]
  unfold afterParse
  dsimp only
  split_ifs
  · exact .inl ⟨_, rfl, hlate _⟩
  · split
    · next c hc =>
      rcases t.phase_report s c (milliseconds a.seconds) with h | ⟨snapshot, lines, hs, h⟩
      · exact .inl h
      · exact .inr ⟨c, snapshot, _, lines, hc, hs, h⟩
    · split
      · exact .inl ⟨_, rfl, hlate _⟩
      · exact .inl ⟨_, rfl, hfailed _⟩
      · exact .inl ⟨_, rfl, hfailed _⟩
      · exact .inl ⟨_, rfl, hfailed _⟩

end Task

/-! ### Phases -/

namespace Phase

/-- The lock is taken. -/
def Holds : Phase → Prop
  | rechecking | yielding | parsing | opening _ | writing .. | replacing _ | discarding ..
  | releasing _ => True
  | looking | claiming | finished _ => False

/-- The lock is taken and the artifact is not there. -/
def Works : Phase → Prop
  | parsing | opening _ | writing .. | replacing _ | discarding .. => True
  | looking | claiming | rechecking | yielding | releasing _ | finished _ => False

/-- The file beside the artifact may be there. -/
def UsesTemp : Phase → Prop
  | writing .. | replacing _ | discarding .. => True
  | looking | claiming | rechecking | yielding | parsing | opening _ | releasing _
  | finished _ => False

/-- It is decided how the file ends. -/
def ending? : Phase → Option Ending
  | releasing ending | finished ending => some ending
  | looking | claiming | rechecking | yielding | parsing | opening _ | writing .. | replacing _
  | discarding .. => none

/-- The file was dumped. -/
def Dumped (p : Phase) : Prop := ∃ ending, p.ending? = some ending ∧ ending.IsDumped

theorem dumped_finished_iff {o : Outcome} :
    (Phase.finished (.ok o)).Dumped ↔ o.status = .dumped := by
  constructor
  · rintro ⟨ending, hending, hdumps⟩
    obtain rfl := Option.some.inj hending
    exact hdumps
  · exact fun h => ⟨.ok o, rfl, h⟩

theorem not_dumped {p : Phase} (h : p.ending? = none) : ¬ p.Dumped := by
  rintro ⟨ending, heq, -⟩
  rw [h] at heq
  exact absurd heq (by simp)

theorem not_dumped_of_ending {p : Phase} {ending : Ending} (h : p.ending? = some ending)
    (hdumps : ¬ ending.IsDumped) : ¬ p.Dumped := by
  rintro ⟨ending', heq, hdumps'⟩
  obtain rfl := Option.some.inj (h.symm.trans heq)
  exact hdumps hdumps'

theorem Works.holds {p : Phase} (h : p.Works) : p.Holds := by
  cases p <;> first | exact trivial | exact absurd h id

theorem Works.ending?_eq {p : Phase} (h : p.Works) : p.ending? = none := by
  cases p <;> first | rfl | exact absurd h id

theorem UsesTemp.works {p : Phase} (h : p.UsesTemp) : p.Works := by
  cases p <;> first | exact trivial | exact absurd h id

end Phase

/-! ### Workers -/

/-- The attempt that a request is answered with, if it asks for a parse. -/
def Request.attempt? : {β : Type} → Request β → β → Option Attempt
  | _, .parse .., a => some a
  | _, _, _ => none

/-- Who handles a task of a batch. -/
structure Worker where
  /-- The batch. -/
  batch : Batch
  /-- The task. -/
  task : Task
  /-- How far it is. -/
  phase : Phase
  /-- What came of its parse. -/
  attempt? : Option Attempt

namespace Worker

variable {v v' : Worker}

/-- A worker that has not begun. -/
def start (b : Batch) (t : Task) : Worker := ⟨b, t, .looking, none⟩

/-- The path of the artifact that a worker makes. -/
abbrev artifact (v : Worker) : Path := v.task.artifact

/-- One request of a worker is answered. -/
def step (frontEnd : FrontEnd) (v : Worker) (w : World) : Option (Worker × World) :=
  match v.phase.next v.batch v.task with
  | .stop _ => none
  | .ask request resume =>
    let (answer, w') := w.perform frontEnd request
    some (⟨v.batch, v.task, (resume answer).phase, (request.attempt? answer).or v.attempt?⟩,
      { w' with log := w'.log ++ (resume answer).log })

/-- What a worker does with the answer to its request. -/
theorem step_of_next (frontEnd : FrontEnd) (w : World) {β : Type} {request : Request β}
    {resume : β → Transition} (h : v.phase.next v.batch v.task = .ask request resume) :
    v.step frontEnd w =
      some (⟨v.batch, v.task, (resume (w.perform frontEnd request).1).phase,
          (request.attempt? (w.perform frontEnd request).1).or v.attempt?⟩,
        { (w.perform frontEnd request).2 with
          log := (w.perform frontEnd request).2.log
            ++ (resume (w.perform frontEnd request).1).log }) := by
  rw [step, h]

theorem task_of_step {frontEnd : FrontEnd} {w w' : World} (h : v.step frontEnd w = some (v', w')) :
    v'.batch = v.batch ∧ v'.task = v.task := by
  unfold step at h
  split at h
  · exact absurd h (by simp)
  · obtain ⟨rfl, -⟩ := Prod.mk.inj (Option.some.inj h)
    exact ⟨rfl, rfl⟩

/-- If a worker has parsed its source, then with a front end. -/
def AnsweredBy (frontEnd : FrontEnd) (v : Worker) : Prop :=
  ∀ a, v.attempt? = some a → a = frontEnd v.task.source v.task.options

theorem AnsweredBy.start (b : Batch) (t : Task) (frontEnd : FrontEnd) :
    (Worker.start b t).AnsweredBy frontEnd := by
  intro a ha
  exact absurd ha (by simp [Worker.start])

/-- A worker whose parses a front end answers goes on so with its answers. -/
theorem AnsweredBy.step {frontEnd : FrontEnd} {w w' : World} (h : v.AnsweredBy frontEnd)
    (hstep : v.step frontEnd w = some (v', w')) : v'.AnsweredBy frontEnd := by
  obtain ⟨b, t, phase, attempt?⟩ := v
  cases phase with
  | finished ending => exact absurd hstep (by simp [Worker.step, Phase.next])
  | parsing =>
    obtain ⟨rfl, -⟩ := Prod.mk.inj (Option.some.inj hstep)
    intro a ha
    exact (Option.some.inj ha).symm
  | looking | claiming | rechecking | yielding | opening | writing | replacing | discarding
  | releasing =>
    obtain ⟨rfl, -⟩ := Prod.mk.inj (Option.some.inj hstep)
    exact h

/-- The attempt of a worker leads to a dump. -/
def Opens (v : Worker) (d : Dump) : Prop :=
  ∃ a, v.attempt? = some a ∧ (v.task.afterParse v.batch.settings a).phase = .opening d

/-- A worker has come to dump. -/
def Dumping (v : Worker) : Prop := ∃ d, v.Opens d

/-- The text that a worker is to write: what is dumped of the snapshot of the compilation that it
got from the parser. -/
def Writes (v : Worker) (text : String) : Prop :=
  ∃ a c s, v.attempt? = some a ∧ a.result = .ok c ∧ c.graph.snapshot c.root = .ok s ∧
    s.graph.dump v.batch.rules s.root = .ok text

/-- A worker dumps the snapshot of what it got from the parser. -/
theorem Opens.writes {d : Dump} {text : String} (h : v.Opens d)
    (htext : d.graph.dump v.batch.rules d.root = .ok text) : v.Writes text := by
  obtain ⟨a, ha, hphase⟩ := h
  rcases v.task.phase_afterParse v.batch.settings a with ⟨ending, hending, -⟩ |
    ⟨c, snapshot, parseMs, lines, hc, hs, hopening⟩
  · rw [hending] at hphase
    exact absurd hphase (by simp)
  · rw [hopening] at hphase
    obtain rfl := Phase.opening.inj hphase
    exact ⟨a, c, snapshot, ha, hc, hs, htext⟩

end Worker

end DeclGraph
