import DeclGraph.Proofs.Batch.Pool

/-!
# Pools come to an end

Whatever happens in a pool brings one of its jobs nearer to the end (`Pool.rank_lt_of_step`), and as
long as a job is not over something can happen (`Pool.exists_step`), so every pool comes to an end
(`Pool.terminates`).  A job that has ended stays as it is (`Pool.getElem?_of_reaches`).

What a batch makes of its jobs is `Pool.result`: their outcomes in the order of the tasks, or the
first failure.  Jobs are only cancelled on account of a failure, so where there is a report every
job has an outcome in it (`Pool.map_ending?_of_result`).
-/

namespace DeclGraph

/-! ### Ranks -/

/-- How far a job is from its end. -/
def Job.rank : Job → Nat
  | .waiting _ => 11
  | .taken v => v.phase.rank
  | .cancelled _ => 0

/-- An answer brings a worker nearer to its end. -/
theorem Worker.rank_lt_of_step {v v' : Worker} {frontEnd : FrontEnd} {w w' : World}
    (h : v.step frontEnd w = some (v', w')) : v'.phase.rank < v.phase.rank := by
  have hfalls := Phase.falls_next v.batch v.task v.phase
  cases hnext : v.phase.next v.batch v.task with
  | stop ending =>
    rw [step, hnext] at h
    exact absurd h (by simp)
  | ask request resume =>
    rw [step_of_next frontEnd w hnext] at h
    obtain ⟨rfl, -⟩ := Prod.mk.inj (Option.some.inj h)
    rw [hnext] at hfalls
    exact hfalls _

theorem Worker.exists_step {v : Worker} (h : ∀ ending, v.phase ≠ .finished ending)
    (frontEnd : FrontEnd) (w : World) : ∃ v' w', v.step frontEnd w = some (v', w') := by
  cases hnext : v.phase.next v.batch v.task with
  | stop ending => exact absurd (Phase.eq_finished_of_next hnext) (h ending)
  | ask request resume => exact ⟨_, _, step_of_next frontEnd w hnext⟩

theorem Worker.step_eq_none {v : Worker} {ending : Ending} (h : v.phase = .finished ending)
    (frontEnd : FrontEnd) (w : World) : v.step frontEnd w = none := by
  rw [step, h]
  rfl

theorem Job.ending?_taken {v : Worker} {ending : Ending} :
    (Job.taken v).ending? = some ending ↔ v.phase = .finished ending := by
  obtain ⟨b, t, phase, attempt?⟩ := v
  cases phase with
  | finished ending' => simp [ending?]
  | looking | claiming | rechecking | yielding | parsing | opening | writing | replacing
  | discarding | releasing => simp [ending?]

theorem Job.ending?_eq_some_iff {job : Job} {ending : Ending} :
    job.ending? = some ending ↔ ∃ v, job = .taken v ∧ v.phase = .finished ending := by
  cases job with
  | waiting t => simp [ending?]
  | cancelled t => simp [ending?]
  | taken v => simp [ending?_taken]

/-- A worker that takes a step had not come to its end. -/
theorem Worker.not_isOver_of_step {v v' : Worker} {frontEnd : FrontEnd} {w w' : World}
    (h : v.step frontEnd w = some (v', w')) : ¬ (Job.taken v).IsOver := by
  intro hover
  obtain ⟨ending, hended⟩ := Option.ne_none_iff_exists'.1 hover
  rw [step_eq_none (Job.ending?_taken.1 hended)] at h
  exact absurd h (by simp)

namespace Pool

variable {b : Batch} {p p' : Pool}

/-- How far the jobs of a pool are from their ends. -/
def rank (p : Pool) : Nat := (p.jobs.map Job.rank).sum

/-- Whatever happens in a pool brings it nearer to its end. -/
theorem rank_lt_of_step (h : Step b p p') : p'.rank < p.rank := by
  have hsum (front back : List Job) {job job' : Job} (hjob : job'.rank < job.rank) :
      ((front ++ job' :: back).map Job.rank).sum < ((front ++ job :: back).map Job.rank).sum := by
    simp only [List.map_append, List.map_cons, List.sum_append, List.sum_cons]
    omega
  cases h with
  | take => exact hsum _ _ (by decide : (10 : Nat) < 11)
  | act hstep => exact hsum _ _ (Worker.rank_lt_of_step hstep)
  | cancel => exact hsum _ _ (by decide : (0 : Nat) < 11)

/-- Of the jobs that wait one is the first. -/
theorem exists_first_waiting {jobs : List Job} (h : ∃ job ∈ jobs, job.IsWaiting) :
    ∃ job front back, jobs = front ++ job :: back ∧ job.IsWaiting ∧
      ∀ job ∈ front, ¬ job.IsWaiting := by
  classical
  have hsome : (jobs.find? fun job => decide job.IsWaiting).isSome := by
    simpa [List.find?_isSome] using h
  obtain ⟨job, hfind⟩ := Option.isSome_iff_exists.1 hsome
  obtain ⟨hwaits, front, back, hjobs, hfront⟩ := List.find?_eq_some_iff_append.1 hfind
  exact ⟨job, front, back, hjobs, by simpa using hwaits, by simpa using hfront⟩

/-- As long as a pool is not over something can happen. -/
theorem exists_step (hworkers : 0 < b.settings.workers) (h : ¬ p.IsOver) :
    ∃ p', Step b p p' := by
  obtain ⟨w, jobs⟩ := p
  by_cases hbusy : ∃ job ∈ jobs, job.isBusy = true
  · -- a worker that is at its job goes on
    obtain ⟨job, hjob, hbusy⟩ := hbusy
    obtain ⟨front, back, rfl⟩ := List.append_of_mem hjob
    cases job with
    | waiting t => exact absurd hbusy (by simp [Job.isBusy])
    | cancelled t => exact absurd hbusy (by simp [Job.isBusy])
    | taken v =>
      have hunfinished (ending : Ending) : v.phase ≠ .finished ending := by
        intro hphase
        rw [Job.isBusy, Job.ending?_taken.2 hphase] at hbusy
        exact absurd hbusy (by simp)
      obtain ⟨v', w', hstep⟩ := Worker.exists_step hunfinished default w
      exact ⟨_, .act hstep⟩
  · -- nobody is at work, so the first task that waits can be taken
    have hidle : ∀ job ∈ jobs, job.isBusy = false := fun job hjob =>
      Bool.eq_false_iff.2 fun hbusy' => hbusy ⟨job, hjob, hbusy'⟩
    have hwaits : ∃ job ∈ jobs, job.IsWaiting := by
      by_contra hnone
      refine h fun job hjob => ?_
      cases job with
      | waiting t => exact absurd ⟨_, hjob, trivial⟩ hnone
      | cancelled t => trivial
      | taken v =>
        have hended := hidle _ hjob
        rw [Job.isBusy, Option.isNone_eq_false_iff, Option.isSome_iff_ne_none] at hended
        exact hended
    obtain ⟨job, front, back, rfl, hwaits, hfirst⟩ := exists_first_waiting hwaits
    cases job with
    | waiting t =>
      refine ⟨_, .take hfirst ?_⟩
      have hcount : (front ++ .waiting t :: back).countP Job.isBusy = 0 :=
        List.countP_eq_zero.2 fun job hjob => by rw [hidle job hjob]; exact Bool.false_ne_true
      rw [hcount]
      exact hworkers
    | taken v => exact absurd hwaits id
    | cancelled t => exact absurd hwaits id

/-- However a pool goes on it comes to its end. -/
structure Terminates (b : Batch) (p : Pool) : Prop where
  /-- No pool goes on for ever. -/
  acc : Acc (fun p'' p' => Step b p' p'') p
  /-- No pool stands still before it is over. -/
  goesOn : ∀ p', Reaches b p p' → p'.IsOver ∨ ∃ p'', Step b p' p''

theorem terminates (hworkers : 0 < b.settings.workers) (p : Pool) : Terminates b p where
  acc := by
    have hwf : WellFounded fun p'' p' : Pool => p''.rank < p'.rank := (measure rank).wf
    exact Subrelation.accessible (fun h => rank_lt_of_step h) (hwf.apply p)
  goesOn p' _ := or_iff_not_imp_left.2 (exists_step hworkers)

/-! ### What one step does to the jobs -/

/-- How a job changes when something happens to it. -/
inductive Moves (b : Batch) (p p' : Pool) : Job → Job → Prop
  /-- A worker takes the task. -/
  | take {t : Task} (same : p'.world = p.world) : Moves b p p' (.waiting t) (.taken (.start b t))
  /-- The worker of the task takes a step. -/
  | act {v v' : Worker} {frontEnd : FrontEnd}
    (step : v.step frontEnd p.world = some (v', p'.world)) : Moves b p p' (.taken v) (.taken v')
  /-- The task is cancelled. -/
  | cancel {t : Task} (same : p'.world = p.world) (stops : Stops p.jobs) :
    Moves b p p' (.waiting t) (.cancelled t)

/-- Something happens to one job, and the others stay as they are. -/
theorem exists_moves_of_step (h : Step b p p') :
    ∃ (i : Nat) (job job' : Job), p.jobs[i]? = some job ∧ p'.jobs = p.jobs.set i job' ∧
      Moves b p p' job job' := by
  have hat (front back : List Job) (job : Job) :
      (front ++ job :: back)[front.length]? = some job := by simp
  have hset (front back : List Job) (job job' : Job) :
      front ++ job' :: back = (front ++ job :: back).set front.length job' := by simp
  cases h with
  | take => exact ⟨_, _, _, hat _ _ _, hset _ _ _ _, .take rfl⟩
  | act hstep => exact ⟨_, _, _, hat _ _ _, hset _ _ _ _, .act hstep⟩
  | cancel hstops => exact ⟨_, _, _, hat _ _ _, hset _ _ _ _, .cancel rfl hstops⟩

/-- A job stays as it is, or something happens to it. -/
theorem exists_job_of_step (h : Step b p p') {i : Nat} {job : Job} (hi : p.jobs[i]? = some job) :
    ∃ job', p'.jobs[i]? = some job' ∧ (job' = job ∨ Moves b p p' job job') := by
  obtain ⟨j, job₁, job₂, hj, hjobs, hmoves⟩ := exists_moves_of_step h
  by_cases hij : i = j
  · subst hij
    obtain rfl := Option.some.inj (hi.symm.trans hj)
    refine ⟨job₂, ?_, .inr hmoves⟩
    rw [hjobs, List.getElem?_set_self (List.getElem?_eq_some_iff.1 hi).1]
  · refine ⟨job, ?_, .inl rfl⟩
    rw [hjobs, List.getElem?_set_ne (Ne.symm hij), hi]

theorem length_jobs_of_step (h : Step b p p') : p'.jobs.length = p.jobs.length := by
  obtain ⟨i, job, job', -, hjobs, -⟩ := exists_moves_of_step h
  rw [hjobs, List.length_set]

theorem length_jobs_of_reaches (h : Reaches b p p') : p'.jobs.length = p.jobs.length := by
  induction h with
  | refl => rfl
  | tail _ hstep ih => exact (length_jobs_of_step hstep).trans ih

/-- A job before a step is the job after it, or something happened to it. -/
theorem exists_job_before_step (h : Step b p p') {i : Nat} {job' : Job}
    (hi : p'.jobs[i]? = some job') :
    ∃ job, p.jobs[i]? = some job ∧ (job' = job ∨ Moves b p p' job job') := by
  have hlt : i < p.jobs.length := by
    rw [← length_jobs_of_step h]
    exact (List.getElem?_eq_some_iff.1 hi).1
  obtain ⟨job'', hi', hmoves⟩ := exists_job_of_step h (List.getElem?_eq_getElem hlt)
  obtain rfl := Option.some.inj (hi'.symm.trans hi)
  exact ⟨_, List.getElem?_eq_getElem hlt, hmoves⟩

/-- Nothing happens to a job that is over. -/
theorem Moves.not_isOver {job job' : Job} (h : Moves b p p' job job') : ¬ job.IsOver := by
  cases h with
  | take | cancel => exact id
  | act hstep => exact Worker.not_isOver_of_step hstep

/-- Nothing happens to a job that has ended. -/
theorem Moves.ending?_eq_none {job job' : Job} (h : Moves b p p' job job') :
    job.ending? = none := by
  cases h with
  | take | cancel => rfl
  | act hstep => exact not_not.1 (Worker.not_isOver_of_step hstep)

/-- A job that has ended stays as it is. -/
theorem getElem?_of_step (h : Step b p p') {i : Nat} {job : Job} (hi : p.jobs[i]? = some job)
    (hended : job.ending? ≠ none) : p'.jobs[i]? = some job := by
  obtain ⟨job', hi', rfl | hmoves⟩ := exists_job_of_step h hi
  · exact hi'
  · exact absurd hmoves.ending?_eq_none hended

theorem getElem?_of_reaches (h : Reaches b p p') {i : Nat} {job : Job}
    (hi : p.jobs[i]? = some job) (hended : job.ending? ≠ none) : p'.jobs[i]? = some job := by
  induction h with
  | refl => exact hi
  | tail _ hstep ih => exact getElem?_of_step hstep ih hended

/-! ### Failures -/

/-- A failure of the rules, counted by the place of the job. -/
theorem stops_iff {jobs : List Job} : Stops jobs ↔ ∃ (i : Nat) (job : Job) (e : RulesError),
    jobs[i]? = some job ∧ job.ending? = some (.error (.rules e)) ∧
      ∀ (k : Nat), k < i → ∃ job outcome, jobs[k]? = some job ∧
        job.ending? = some (.ok outcome) := by
  constructor
  · rintro ⟨front, job, back, e, rfl, hjob, hfront⟩
    refine ⟨front.length, job, e, by simp, hjob, fun k hk => ?_⟩
    obtain ⟨outcome, hended⟩ := hfront front[k] (List.getElem_mem hk)
    refine ⟨front[k], outcome, ?_, hended⟩
    rw [List.getElem?_append_left hk, List.getElem?_eq_getElem hk]
  · rintro ⟨i, job, e, hi, hjob, hfront⟩
    obtain ⟨hlt, hget⟩ := List.getElem?_eq_some_iff.1 hi
    refine ⟨jobs.take i, job, jobs.drop (i + 1), e, ?_, hjob, fun job' hmem => ?_⟩
    · rw [← hget, List.cons_getElem_drop_succ, List.take_append_drop]
    · obtain ⟨k, hk⟩ := List.mem_iff_getElem?.1 hmem
      have hki : k < i := by
        have := (List.getElem?_eq_some_iff.1 hk).1
        rw [List.length_take] at this
        omega
      rw [List.getElem?_take_of_lt hki] at hk
      obtain ⟨job'', outcome, hk', hended⟩ := hfront k hki
      obtain rfl := Option.some.inj (hk.symm.trans hk')
      exact ⟨outcome, hended⟩

theorem stops_of_step (h : Step b p p') (hstops : Stops p.jobs) : Stops p'.jobs := by
  obtain ⟨i, job, e, hi, hjob, hfront⟩ := stops_iff.1 hstops
  refine stops_iff.2 ⟨i, job, e, getElem?_of_step h hi (by rw [hjob]; simp), hjob, fun k hk => ?_⟩
  obtain ⟨job', outcome, hk', hended⟩ := hfront k hk
  exact ⟨job', outcome, getElem?_of_step h hk' (by rw [hended]; simp), hended⟩

/-- A task is only cancelled after a failure of the rules. -/
theorem stops_of_cancelled (h : Reaches b p p') (hnew : ∀ t, .cancelled t ∉ p.jobs) {t : Task}
    (ht : .cancelled t ∈ p'.jobs) : Stops p'.jobs := by
  induction h generalizing t with
  | refl => exact absurd ht (hnew t)
  | @tail q q' _ hstep ih =>
    refine stops_of_step hstep ?_
    obtain ⟨i, hi⟩ := List.mem_iff_getElem?.1 ht
    obtain ⟨job, hi', rfl | hmoves⟩ := exists_job_before_step hstep hi
    · exact ih (List.mem_of_getElem? hi')
    · cases hmoves with
      | cancel _ hstops => exact hstops

/-- Where no job fails on account of the rules every job comes to its end with a worker. -/
theorem exists_finished (h : Reaches b p p') (hnew : ∀ t, .cancelled t ∉ p.jobs)
    (hover : p'.IsOver) (hrules : ∀ job ∈ p'.jobs, ∀ e, job.ending? ≠ some (.error (.rules e)))
    {job : Job} (hjob : job ∈ p'.jobs) :
    ∃ v ending, job = .taken v ∧ v.phase = .finished ending := by
  have hjobover := hover job hjob
  cases job with
  | waiting t => exact absurd hjobover id
  | cancelled t =>
    -- it was cancelled on account of a failure that is still there
    obtain ⟨i, failed, e, hi, hfailed, -⟩ := stops_iff.1 (stops_of_cancelled h hnew hjob)
    exact absurd hfailed (hrules failed (List.mem_of_getElem? hi) e)
  | taken v =>
    obtain ⟨ending, hended⟩ := Option.ne_none_iff_exists'.1 hjobover
    exact ⟨v, ending, rfl, Job.ending?_taken.1 hended⟩

end Pool

/-! ### Results -/

theorem Batch.mapM_id_eq_ok_iff {endings : List Ending} {outcomes : List Outcome} :
    endings.mapM id = Except.ok (ε := Failure) outcomes ↔ endings = outcomes.map .ok := by
  induction endings generalizing outcomes with
  | nil => simp [pure, Except.pure, eq_comm]
  | cons ending rest ih =>
    rw [List.mapM_cons]
    cases ending with
    | error e => cases outcomes <;> simp [bind, Except.bind]
    | ok o =>
      cases hrest : rest.mapM id with
      | error e =>
        -- what the rest comes to decides
        have hne (os : List Outcome) : rest ≠ os.map .ok := fun heq => by
          rw [ih.2 heq] at hrest
          exact absurd hrest (by simp)
        cases outcomes with
        | nil => simp [bind, Except.bind]
        | cons o' os => simpa [bind, Except.bind] using fun _ => hne os
      | ok os =>
        obtain rfl := ih.1 hrest
        cases outcomes with
        | nil => simp [bind, Except.bind, pure, Except.pure]
        | cons o' os' => simp [bind, Except.bind, pure, Except.pure, List.map_inj_right]

/-- Where all endings are outcomes they are collected, and nowhere else. -/
theorem Batch.collect_eq_ok_iff {endings : List Ending} {report : BatchReport} :
    Batch.collect endings = .ok report ↔ endings = report.outcomes.map .ok := by
  rw [← Batch.mapM_id_eq_ok_iff, Batch.collect]
  obtain ⟨outcomes⟩ := report
  cases endings.mapM id <;> simp [Except.map]

/-- Where no ending is a failure there is a report. -/
theorem Batch.exists_collect {endings : List Ending}
    (h : ∀ ending ∈ endings, ∀ e, ending ≠ .error e) :
    ∃ report, Batch.collect endings = .ok report := by
  suffices hoks : ∃ outcomes : List Outcome, endings = outcomes.map .ok by
    obtain ⟨outcomes, heq⟩ := hoks
    exact ⟨⟨outcomes⟩, Batch.collect_eq_ok_iff.2 heq⟩
  induction endings with
  | nil => exact ⟨[], rfl⟩
  | cons ending rest ih =>
    obtain ⟨hending, hrest⟩ := List.forall_mem_cons.1 h
    obtain ⟨outcomes, rfl⟩ := ih hrest
    cases ending with
    | error e => exact absurd rfl (hending e)
    | ok o => exact ⟨o :: outcomes, rfl⟩

theorem Job.map_ending?_of_forall {jobs : List Job} (h : ∀ job ∈ jobs, job.ending? ≠ none) :
    jobs.map Job.ending? = (jobs.filterMap Job.ending?).map some := by
  induction jobs with
  | nil => rfl
  | cons job rest ih =>
    obtain ⟨hjob, hrest⟩ := List.forall_mem_cons.1 h
    obtain ⟨ending, hending⟩ := Option.ne_none_iff_exists'.1 hjob
    rw [List.map_cons, List.filterMap_cons_some hending, List.map_cons, hending, ih hrest]

namespace Pool

variable {b : Batch} {p p' : Pool}

/-- Where no job fails there is a report. -/
theorem exists_result (hgood : ∀ job ∈ p.jobs, ∀ e, job.ending? ≠ some (.error e)) :
    ∃ report, p.result = .ok report := by
  refine Batch.exists_collect fun ending hending e heq => ?_
  obtain ⟨job, hjob, hended⟩ := List.mem_filterMap.1 hending
  rw [heq] at hended
  exact hgood job hjob e hended

/-- Where a pool has a report every job has ended with the outcome at its place. -/
theorem map_ending?_of_result (h : Reaches b p p') (hnew : ∀ t, .cancelled t ∉ p.jobs)
    (hover : p'.IsOver) {report : BatchReport} (hreport : p'.result = .ok report) :
    p'.jobs.map Job.ending? = report.outcomes.map fun o => some (.ok o) := by
  have hendings := Batch.collect_eq_ok_iff.1 hreport
  -- a failure of the rules would be the result
  have hrules (job : Job) (hjob : job ∈ p'.jobs) (e : RulesError) :
      job.ending? ≠ some (.error (.rules e)) := by
    intro hfailed
    have hmem := List.mem_filterMap.2 ⟨job, hjob, hfailed⟩
    rw [hendings] at hmem
    exact absurd hmem (by simp)
  have hended : ∀ job ∈ p'.jobs, job.ending? ≠ none := by
    intro job hjob
    obtain ⟨v, ending, rfl, hphase⟩ := exists_finished h hnew hover hrules hjob
    rw [Job.ending?_taken.2 hphase]
    simp
  rw [Job.map_ending?_of_forall hended, hendings, List.map_map]
  rfl

/-- Where a pool has a report every job was taken and has ended with the outcome at its place. -/
theorem exists_worker_of_result (h : Reaches b p p') (hnew : ∀ t, .cancelled t ∉ p.jobs)
    (hover : p'.IsOver) {report : BatchReport} (hreport : p'.result = .ok report) {i : Nat}
    {job : Job} (hi : p'.jobs[i]? = some job) :
    ∃ v o, job = .taken v ∧ v.phase = .finished (.ok o) ∧ report.outcomes[i]? = some o := by
  have hmap := congrArg (·[i]?) (map_ending?_of_result h hnew hover hreport)
  simp only [List.getElem?_map, hi, Option.map_some] at hmap
  obtain ⟨o, ho, hended⟩ := Option.map_eq_some_iff.1 hmap.symm
  obtain ⟨v, hv, hphase⟩ := Job.ending?_eq_some_iff.1 hended.symm
  exact ⟨v, o, hv, hphase, ho⟩

end Pool

end DeclGraph
