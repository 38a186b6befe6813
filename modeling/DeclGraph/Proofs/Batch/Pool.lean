import DeclGraph.Proofs.Batch.Crew

/-!
# Pools

A `Pool` handles the tasks of a batch with as many workers at once as the settings allow.  The tasks
are taken in order; when a task ends with a failure of the rules and all before it ended well, those
that were not taken yet may be cancelled one by one, while the others go on (`Pool.Step`).

The jobs of a pool are a crew whose workers have not begun where nobody took the task
(`Pool.crew_reaches`).  Handling the tasks one after another is one way for a pool to go
(`Batch.exists_reaches_result`).
-/

namespace DeclGraph

/-! ### Pools -/

/-- A task of a batch, as far as it is handled. -/
inductive Job
  /-- Nobody has taken the task. -/
  | waiting (task : Task)
  /-- A worker has taken the task. -/
  | taken (worker : Worker)
  /-- Nobody will take the task. -/
  | cancelled (task : Task)

namespace Job

/-- The worker of a job; where nobody took the task it has not begun. -/
def worker (b : Batch) : Job → Worker
  | waiting t | cancelled t => .start b t
  | taken v => v

/-- The job waits for a worker. -/
def IsWaiting : Job → Prop
  | waiting _ => True
  | taken _ | cancelled _ => False

/-- How a job has ended, if a worker has ended it. -/
def ending? : Job → Option Ending
  | taken ⟨_, _, .finished ending, _⟩ => some ending
  | _ => none

/-- Whether a worker is at the job. -/
def isBusy : Job → Bool
  | taken v => (taken v).ending?.isNone
  | waiting _ | cancelled _ => false

/-- Nothing more happens to the job. -/
def IsOver : Job → Prop
  | waiting _ => False
  | taken v => (taken v).ending? ≠ none
  | cancelled _ => True

theorem IsOver.isBusy_eq {job : Job} (h : job.IsOver) : job.isBusy = false := by
  cases job with
  | waiting t => exact absurd h id
  | taken v => simpa [isBusy] using Option.ne_none_iff_isSome.1 h
  | cancelled t => rfl

end Job

/-- The jobs of a batch on the files of a world. -/
structure Pool where
  /-- The files, the log and the parses so far. -/
  world : World
  /-- The jobs, in the order of the tasks. -/
  jobs : List Job

namespace Pool

/-- The files of a pool. -/
abbrev files (p : Pool) : FileSystem := p.world.files

/-- A job has failed on account of the rules, and all before it have ended well. -/
def Stops (jobs : List Job) : Prop :=
  ∃ front job back e, jobs = front ++ job :: back ∧ job.ending? = some (.error (.rules e)) ∧
    ∀ job ∈ front, ∃ outcome, job.ending? = some (.ok outcome)

/-- What may happen to the jobs of a batch. -/
inductive Step (b : Batch) : Pool → Pool → Prop
  /-- The first task that waits is taken, if a worker is free. -/
  | take {w : World} {front back : List Job} {t : Task}
    (first : ∀ job ∈ front, ¬ job.IsWaiting)
    (free : ((front ++ .waiting t :: back).countP Job.isBusy : Int) < b.settings.workers) :
    Step b ⟨w, front ++ .waiting t :: back⟩ ⟨w, front ++ .taken (.start b t) :: back⟩
  /-- A worker takes a step, with the answers of any front end. -/
  | act {w w' : World} {front back : List Job} {v v' : Worker} {frontEnd : FrontEnd}
    (step : v.step frontEnd w = some (v', w')) :
    Step b ⟨w, front ++ .taken v :: back⟩ ⟨w', front ++ .taken v' :: back⟩
  /-- A task that waits is cancelled, after a failure of the rules. -/
  | cancel {w : World} {front back : List Job} {t : Task}
    (stops : Stops (front ++ .waiting t :: back)) :
    Step b ⟨w, front ++ .waiting t :: back⟩ ⟨w, front ++ .cancelled t :: back⟩

/-- Anything that may happen does, in any order. -/
def Reaches (b : Batch) : Pool → Pool → Prop := Relation.ReflTransGen (Step b)

/-- Nothing more happens. -/
def IsOver (p : Pool) : Prop := ∀ job ∈ p.jobs, job.IsOver

/-- What becomes of a pool that is over: the outcomes of its jobs, or the first failure. -/
def result (p : Pool) : Except Failure BatchReport := Batch.collect (p.jobs.filterMap Job.ending?)

/-- Every parse of a pool was answered by one front end. -/
def AnsweredBy (frontEnd : FrontEnd) (p : Pool) : Prop :=
  ∀ v, .taken v ∈ p.jobs → v.AnsweredBy frontEnd

/-- The crew of a pool. -/
def crew (b : Batch) (p : Pool) : Crew := ⟨p.world, p.jobs.map (Job.worker b)⟩

variable {b : Batch} {p p' : Pool}

theorem getElem?_crew (b : Batch) {i : Nat} {job : Job} (hi : p.jobs[i]? = some job) :
    (p.crew b).workers[i]? = some (job.worker b) := by
  rw [crew, List.getElem?_map, hi]
  rfl

/-- What happens in a pool is a step of its crew, or nothing for it. -/
theorem crew_step (h : Step b p p') : p'.crew b = p.crew b ∨ Crew.Step (p.crew b) (p'.crew b) := by
  cases h with
  | take => left; simp [crew, Job.worker]
  | cancel => left; simp [crew, Job.worker]
  | @act w w' front back v v' frontEnd step =>
    right
    refine ⟨front.length, frontEnd, v, v', w', ?_, step, ?_⟩
    · simp [crew, Job.worker]
    · simp [crew, Job.worker]

theorem crew_reaches (h : Reaches b p p') : Crew.Reaches (p.crew b) (p'.crew b) := by
  induction h with
  | refl => exact .refl
  | tail _ hstep ih =>
    rcases crew_step hstep with heq | hstep'
    · rw [heq]; exact ih
    · exact ih.tail hstep'

end Pool

/-! ### One after another -/

/-- Only a file that is finished waits for nothing. -/
theorem Phase.eq_finished_of_next {b : Batch} {t : Task} {p : Phase} {ending : Ending}
    (h : p.next b t = .stop ending) : p = .finished ending := by
  cases p with
  | finished ending' =>
    obtain rfl := Next.stop.inj h
    rfl
  | looking | claiming | rechecking | yielding | parsing | opening | writing | replacing
  | discarding | releasing => exact absurd h (by simp [Phase.next])

/-- What a phase that waits for an answer comes to. -/
theorem Phase.runIn_run {b : Batch} {t : Task} {p : Phase} {β : Type} {request : Request β}
    {resume : β → Transition} (frontEnd : FrontEnd) (w : World)
    (h : p.next b t = .ask request resume) :
    (p.run b t).runIn frontEnd w =
      ((resume (w.perform frontEnd request).1).phase.run b t).runIn frontEnd
        { (w.perform frontEnd request).2 with
          log := (w.perform frontEnd request).2.log
            ++ (resume (w.perform frontEnd request).1).log } := by
  rw [Phase.run]
  split
  · next heq => rw [h] at heq; exact absurd heq (by simp)
  · next heq =>
    rw [h] at heq
    obtain ⟨rfl, hrequest, hresume⟩ := Next.ask.inj heq
    obtain rfl := eq_of_heq hrequest
    obtain rfl := eq_of_heq hresume
    show (Program.tell (resume (w.perform frontEnd request).1).log >>= fun _ =>
      (resume (w.perform frontEnd request).1).phase.run b t).runIn frontEnd
        (w.perform frontEnd request).2 = _
    rw [Program.runIn_bind, Program.runIn_tell]

/-! ### Batches -/

namespace Pool

variable {b : Batch} {front : List Job}

/-- A worker that is left alone comes to the end that its task has on its own. -/
theorem exists_reaches_finished (b : Batch) (front back : List Job) {frontEnd : FrontEnd}
    (v : Worker) (hanswered : v.AnsweredBy frontEnd) (w : World) :
    ∃ v' w' ending, v'.phase = .finished ending ∧ v'.AnsweredBy frontEnd ∧
      (v.phase.run v.batch v.task).runIn frontEnd w = (ending, w') ∧
      Reaches b ⟨w, front ++ Job.taken v :: back⟩ ⟨w', front ++ Job.taken v' :: back⟩ := by
  -- every answer brings the worker nearer to its end
  induction hrank : v.phase.rank using Nat.strong_induction_on generalizing v w with
  | _ n ih =>
    cases hnext : v.phase.next v.batch v.task with
    | stop ending =>
      have hphase := Phase.eq_finished_of_next hnext
      refine ⟨v, w, ending, hphase, hanswered, ?_, .refl⟩
      rw [hphase, Phase.run]
      rfl
    | ask request resume =>
      have hstep := Worker.step_of_next frontEnd w hnext
      have hfalls := Phase.falls_next v.batch v.task v.phase
      rw [hnext] at hfalls
      obtain ⟨v', w', ending, hphase, hanswered', hrun, hreach⟩ :=
        ih _ (hrank ▸ hfalls (w.perform frontEnd request).1)
          ⟨v.batch, v.task, (resume (w.perform frontEnd request).1).phase, _⟩
          (hanswered.step hstep) _ rfl
      refine ⟨v', w', ending, hphase, hanswered', ?_, .head (.act hstep) hreach⟩
      rw [Phase.runIn_run frontEnd w hnext]
      exact hrun

theorem Stops.append {jobs : List Job} (h : Stops jobs) (more : List Job) :
    Stops (jobs ++ more) := by
  obtain ⟨front, job, back, e, rfl, hjob, hfront⟩ := h
  exact ⟨front, job, back ++ more, e, by simp, hjob, hfront⟩

/-- After a failure of the rules all tasks that wait can be cancelled. -/
theorem reaches_cancelled (w : World) (tasks : List Task) (h : Stops front) :
    Reaches b ⟨w, front ++ tasks.map Job.waiting⟩ ⟨w, front ++ tasks.map Job.cancelled⟩ := by
  induction tasks generalizing front with
  | nil => exact .refl
  | cons t rest ih =>
    refine .head (.cancel (h.append _)) ?_
    have hrest := ih (h.append [Job.cancelled t])
    rw [List.append_assoc, List.append_assoc] at hrest
    exact hrest

theorem countP_isBusy {done : List Job} (hdone : ∀ job ∈ done, job.IsOver) (tasks : List Task) :
    (done ++ tasks.map Job.waiting).countP Job.isBusy = 0 := by
  rw [List.countP_eq_zero]
  intro job hjob
  rcases List.mem_append.1 hjob with hjob | hjob
  · rw [(hdone job hjob).isBusy_eq]
    exact Bool.false_ne_true
  · obtain ⟨t, -, rfl⟩ := List.mem_map.1 hjob
    exact Bool.false_ne_true

/-- Where everything before a task is over, one worker can take it and end it. -/
theorem exists_reaches_ended (frontEnd : FrontEnd) (hworkers : 0 < b.settings.workers)
    {done : List Job} (hdone : ∀ job ∈ done, job.IsOver) (t : Task) (rest : List Task)
    (w : World) :
    ∃ v w' ending, (Job.taken v).ending? = some ending ∧ v.AnsweredBy frontEnd ∧
      (b.process t).runIn frontEnd w = (ending, w') ∧
      Reaches b ⟨w, done ++ (t :: rest).map Job.waiting⟩
        ⟨w', (done ++ [Job.taken v]) ++ rest.map Job.waiting⟩ := by
  -- nobody is at work, so the first task that waits can be taken
  have htake : Step b ⟨w, done ++ Job.waiting t :: rest.map Job.waiting⟩
      ⟨w, done ++ Job.taken (.start b t) :: rest.map Job.waiting⟩ := by
    refine .take (fun job hjob hwaiting => ?_) ?_
    · have hover := hdone job hjob
      cases job <;> first | exact hover | exact hwaiting
    · have hidle := countP_isBusy hdone (t :: rest)
      rw [List.map_cons] at hidle
      rw [hidle]
      exact hworkers
  obtain ⟨v, w', ending, hphase, hanswered, hrun, hreach⟩ :=
    exists_reaches_finished b done (rest.map Job.waiting) (.start b t)
      (.start b t frontEnd) w
  refine ⟨v, w', ending, ?_, hanswered, hrun, ?_⟩
  · obtain ⟨b', t', phase, attempt?⟩ := v
    obtain rfl : phase = .finished ending := hphase
    rfl
  · rw [List.append_assoc]
    exact .head htake hreach

/-- Tasks that are handled one after another are handled by a pool, with the same endings. -/
theorem exists_reaches_isOver (frontEnd : FrontEnd) (hworkers : 0 < b.settings.workers)
    (tasks : List Task) (done : List Job) (hdone : ∀ job ∈ done, job.IsOver)
    (hanswered : ∀ v, .taken v ∈ done → v.AnsweredBy frontEnd) (sound : Bool)
    (hsound : sound = true → ∀ job ∈ done, ∃ outcome, job.ending? = some (.ok outcome))
    (w : World) :
    ∃ p, Reaches b ⟨w, done ++ tasks.map Job.waiting⟩ p ∧ p.IsOver ∧ p.AnsweredBy frontEnd ∧
      p.world = ((b.processAll sound tasks).runIn frontEnd w).2 ∧
      p.jobs.filterMap Job.ending? = done.filterMap Job.ending?
        ++ ((b.processAll sound tasks).runIn frontEnd w).1 := by
  -- every task goes from those that wait to those that are over
  induction tasks generalizing done sound w with
  | nil =>
    rw [List.map_nil, List.append_nil]
    refine ⟨⟨w, done⟩, .refl, hdone, hanswered, rfl, ?_⟩
    exact (List.append_nil _).symm
  | cons t rest ih =>
    obtain ⟨v, w', ending, hended, hanswered', hrun, hreach⟩ :=
      exists_reaches_ended frontEnd hworkers hdone t rest w
    have hover : (Job.taken v).IsOver := fun hnone => absurd (hended.symm.trans hnone) (by simp)
    have hdone' : ∀ job ∈ done ++ [Job.taken v], job.IsOver :=
      List.forall_mem_append.2 ⟨hdone, List.forall_mem_singleton.2 hover⟩
    have hanswered' : ∀ u, Job.taken u ∈ done ++ [Job.taken v] → u.AnsweredBy frontEnd := by
      intro u hu
      rcases List.mem_append.1 hu with hu | hu
      · exact hanswered u hu
      · rwa [Job.taken.inj (List.mem_singleton.1 hu)]
    have hendings : (done ++ [Job.taken v]).filterMap Job.ending?
        = done.filterMap Job.ending? ++ [ending] := by
      rw [List.filterMap_append, List.filterMap_cons_some hended, List.filterMap_nil]
    have hgo (sound' : Bool)
        (hsound' : sound' = true →
          ∀ job ∈ done ++ [Job.taken v], ∃ outcome, job.ending? = some (.ok outcome)) :
        ∃ p, Reaches b ⟨w, done ++ (t :: rest).map Job.waiting⟩ p ∧ p.IsOver ∧
          p.AnsweredBy frontEnd ∧ p.world = ((b.processAll sound' rest).runIn frontEnd w').2 ∧
          p.jobs.filterMap Job.ending? = done.filterMap Job.ending?
            ++ ending :: ((b.processAll sound' rest).runIn frontEnd w').1 := by
      obtain ⟨p, hp, hover, hall, hworld, hrest⟩ :=
        ih (done ++ [Job.taken v]) hdone' hanswered' sound' hsound' w'
      refine ⟨p, hreach.trans hp, hover, hall, hworld, ?_⟩
      rw [hrest, hendings, List.append_assoc, List.singleton_append]
    rw [Batch.processAll, Program.runIn_bind, hrun]
    dsimp only
    split
    · next e =>
      cases sound with
      | true =>
        -- the failure stops the pool, and what waits is cancelled
        have hstop : Stops (done ++ [Job.taken v]) :=
          ⟨done, .taken v, [], e, rfl, hended, hsound rfl⟩
        refine ⟨_, hreach.trans (reaches_cancelled w' rest hstop), ?_, ?_, rfl, ?_⟩
        · refine List.forall_mem_append.2 ⟨hdone', fun job hjob => ?_⟩
          obtain ⟨t', -, rfl⟩ := List.mem_map.1 hjob
          trivial
        · intro u hu
          rcases List.mem_append.1 hu with hu | hu
          · exact hanswered' u hu
          · obtain ⟨t', -, hne⟩ := List.mem_map.1 hu
            exact absurd hne (by simp)
        · have hnone : (rest.map Job.cancelled).filterMap Job.ending? = [] :=
            List.filterMap_eq_nil_iff.2 fun job hjob => by
              obtain ⟨t', -, rfl⟩ := List.mem_map.1 hjob
              rfl
          rw [List.filterMap_append, hnone, List.append_nil, hendings]
          rfl
      | false =>
        rw [if_neg (by simp), Program.runIn_bind]
        exact hgo false fun h => absurd h (by simp)
    · rw [Program.runIn_bind]
      exact hgo false fun h => absurd h (by simp)
    · next outcome =>
      rw [Program.runIn_bind]
      refine hgo sound fun h => List.forall_mem_append.2 ⟨hsound h, ?_⟩
      exact List.forall_mem_singleton.2 ⟨outcome, hended⟩

end Pool

namespace Batch

/-- What is told when a batch starts. -/
def startLog (b : Batch) (directory : Path) (invs : List Invocation) : List LogLine :=
  (b.plans directory invs).flatMap Plan.log ++
    [.info ("Batch started (files=" ++ Number.digits (b.tasks directory invs).length
      ++ " workers=" ++ Number.ofInt b.settings.workers ++ " output_dir=" ++ directory.text ++ ")")]

/-- The pool that a batch starts with, when the output directory has been made. -/
def pool (b : Batch) (directory : Path) (invs : List Invocation) (w : World) : Pool where
  world := ⟨(w.files.makeDirectories directory true).1, w.log ++ b.startLog directory invs, w.calls⟩
  jobs := (b.tasks directory invs).map Job.waiting

/-- Handling the inputs of invocations one after another is one way for the pool of the batch to
come to its end, with the same result. -/
theorem exists_reaches_result (invs : List Invocation) (frontEnd : FrontEnd) {b : Batch}
    (hworkers : 0 < b.settings.workers) {directory : Path} {w : World}
    (hdirectory : b.settings.outputDirectory = .ok directory)
    (hmake : (w.files.makeDirectories directory true).2 = .ok ()) :
    ∃ p, Pool.Reaches b (b.pool directory invs w) p ∧ p.IsOver ∧ p.AnsweredBy frontEnd ∧
      p.files = ((b.run invs).runIn frontEnd w).2.files ∧
      p.result = ((b.run invs).runIn frontEnd w).1 := by
  obtain ⟨p, hreach, hover, hanswered, hworld, hendings⟩ := Pool.exists_reaches_isOver frontEnd
    hworkers (b.tasks directory invs) [] (by simp) (by simp) true (by simp)
    (b.pool directory invs w).world
  refine ⟨p, hreach, hover, hanswered, ?_⟩
  have hperform : w.perform frontEnd (.makeDirectories directory)
      = (.ok (), { w with files := (w.files.makeDirectories directory true).1 }) := by
    rw [← hmake]
    rfl
  rw [run, hdirectory]
  dsimp only
  rw [Program.runIn_bind, Program.runIn_request, hperform]
  dsimp only
  rw [Program.runIn_bind, Program.runIn_tell, Program.runIn_bind, Program.runIn_tell,
    Program.runIn_bind]
  dsimp only [pool, startLog] at hworld hendings ⊢
  rw [← List.append_assoc] at hworld hendings
  rw [Pool.files, Pool.result, hworld, hendings, List.filterMap_nil, List.nil_append]
  split
  · next heq => exact ⟨rfl, heq⟩
  · next heq =>
    rw [Program.runIn_bind, Program.runIn_tell]
    exact ⟨rfl, heq⟩

theorem run_reaches (invs : List Invocation) (frontEnd : FrontEnd) {b : Batch}
    (hworkers : 0 < b.settings.workers) {directory : Path} {w : World}
    (hdirectory : b.settings.outputDirectory = .ok directory)
    (hmake : (w.files.makeDirectories directory true).2 = .ok ()) :
    ∃ p, Pool.Reaches b (b.pool directory invs w) p ∧ p.IsOver ∧
      p.files = ((b.run invs).runIn frontEnd w).2.files := by
  obtain ⟨p, hreach, hover, -, hfiles, -⟩ :=
    exists_reaches_result invs frontEnd hworkers hdirectory hmake
  exact ⟨p, hreach, hover, hfiles⟩

/-- Where that comes to a report the pool of the batch can come to it. -/
theorem exists_reaches_report {invs : List Invocation} {frontEnd : FrontEnd} {b : Batch}
    (hworkers : 0 < b.settings.workers) {directory : Path} {w : World}
    (hdirectory : b.settings.outputDirectory = .ok directory)
    (hmake : (w.files.makeDirectories directory true).2 = .ok ()) {α : Type}
    {f : BatchReport → α} {a : α} (hrun : ((b.run invs).runIn frontEnd w).1.map f = .ok a) :
    ∃ p report, Pool.Reaches b (b.pool directory invs w) p ∧ p.IsOver ∧ p.AnsweredBy frontEnd ∧
      p.result = .ok report ∧ f report = a := by
  obtain ⟨p, hreach, hover, hanswered, -, hresult⟩ :=
    exists_reaches_result invs frontEnd hworkers hdirectory hmake
  rw [← hresult] at hrun
  cases hreport : p.result with
  | error e =>
    rw [hreport] at hrun
    exact absurd hrun (by simp [Except.map])
  | ok report =>
    rw [hreport] at hrun
    exact ⟨p, report, hreach, hover, hanswered, hreport, Except.ok.inj hrun⟩

end Batch

end DeclGraph
