import DeclGraph.Proofs.Batch.Solo
import DeclGraph.Proofs.Program.Files

/-!
# Schedules do not matter

If the paths of different tasks lead to different places, no worker notices the others: in whatever
order they take their steps, each job of a pool has got as far as its task does alone
(`Pool.IsApart`).  So all pools of a batch come to the same end, where no task fails to have an
outcome, and one of them is the pool that handles the tasks one after another
(`Batch.independent_of_schedule`).
-/

namespace DeclGraph

open FileSystem

/-! ### Attempts -/

namespace Worker

variable {v v' : Worker} {w w' : World} {frontEnd frontEnd' : FrontEnd}

/-- A worker has no attempt before it has parsed. -/
def IsFresh (v : Worker) : Prop := v.attempt? = none ∨ v.phase.rank < 7

theorem attempt?_of_step (hphase : v.phase ≠ .parsing) (h : v.step frontEnd w = some (v', w')) :
    v'.attempt? = v.attempt? := by
  obtain ⟨b, t, phase, attempt?⟩ := v
  cases moves_of_step h with
  | parsed => exact absurd rfl hphase
  | _ => rfl

theorem IsFresh.step (hfresh : v.IsFresh) (h : v.step frontEnd w = some (v', w')) :
    v'.IsFresh := by
  have hrank := rank_lt_of_step h
  by_cases hphase : v.phase = .parsing
  · rw [hphase] at hrank
    exact .inr hrank
  · rcases hfresh with hnone | hlt
    · exact .inl ((attempt?_of_step hphase h).trans hnone)
    · exact .inr (hrank.trans hlt)

/-- A front end that has answered all parses of a worker has answered those so far. -/
theorem AnsweredBy.of_step (hfresh : v.IsFresh) (h : v.step frontEnd' w = some (v', w'))
    (hanswered : v'.AnsweredBy frontEnd) : v.AnsweredBy frontEnd := by
  intro a ha
  have hphase : v.phase ≠ .parsing := by
    rintro hphase
    rcases hfresh with hnone | hlt
    · exact absurd (hnone.symm.trans ha) (by simp)
    · rw [hphase] at hlt
      exact absurd hlt (by decide)
  have hattempt := hanswered a ((attempt?_of_step hphase h).trans ha)
  rwa [(task_of_step h).2] at hattempt

end Worker

/-! ### Pools of tasks that are apart -/

/-- Two tasks have no place in common. -/
def Task.Disjoint (fs : FileSystem) (t u : Task) : Prop := ∀ q, t.Owns fs q → ¬ u.Owns fs q

/-- A job has got as far as its task does alone; if that has no outcome, neither has the job. -/
def Job.IsSolo (b : Batch) (frontEnd : FrontEnd) (begin : World) (fs : FileSystem) (job : Job) :
    Prop :=
  (job.worker b).IsSolo frontEnd begin fs ∨ (∃ e, job.ending? = some (.error e)) ∧
    ∃ e, (b.alone frontEnd begin (job.worker b).task).1 = .error e

/-- Each job of a pool has got as far as its task does alone, and nothing else has changed. -/
structure Pool.IsApart (b : Batch) (frontEnd : FrontEnd) (begin : World) (tasks : List Task)
    (p : Pool) : Prop where
  /-- The directories are the same. -/
  same : SameDirectories begin.files p.files
  /-- What belongs to no task stays as it is. -/
  others : ∀ q, (∀ t ∈ tasks, ¬ t.Owns begin.files q) → p.files.get? q = begin.files.get? q
  /-- The jobs go their own ways. -/
  jobs : ∀ job ∈ p.jobs, job.IsSolo b frontEnd begin p.files

namespace Pool

variable {b : Batch} {frontEnd : FrontEnd} {begin : World} {tasks : List Task} {p p' : Pool}

theorem answeredBy_of_step (hfresh : ∀ v, .taken v ∈ p.jobs → v.IsFresh) (h : Step b p p')
    (hanswered : p'.AnsweredBy frontEnd) : p.AnsweredBy frontEnd := by
  -- no attempt is ever replaced, so those before the step are among those behind it
  intro v hv
  obtain ⟨i, hi⟩ := List.mem_iff_getElem?.1 hv
  obtain ⟨job', hi', heq | hmoves⟩ := exists_job_of_step h hi
  · rw [heq] at hi'
    exact hanswered v (List.mem_of_getElem? hi')
  · cases hmoves with
    | act hstep =>
      exact .of_step (hfresh v hv) hstep (hanswered _ (List.mem_of_getElem? hi'))

namespace IsApart

theorem step (htree : begin.files.IsTree)
    (htasks : ∀ (i : Nat) (job : Job), p.jobs[i]? = some job →
      (job.worker b).batch = b ∧ tasks[i]? = some (job.worker b).task)
    (hdisjoint : ∀ (i j : Nat) (t u : Task), tasks[i]? = some t → tasks[j]? = some u → i ≠ j →
      t.Disjoint begin.files u)
    (h : p.IsApart b frontEnd begin tasks) (hstep : Step b p p')
    (hanswered : p'.AnsweredBy frontEnd) : p'.IsApart b frontEnd begin tasks := by
  obtain ⟨i, job, job', hi, hjobs, hmoves⟩ := exists_moves_of_step hstep
  have hself : p'.jobs[i]? = some job' := by
    rw [hjobs, List.getElem?_set_self (List.getElem?_eq_some_iff.1 hi).1]
  have hold := h.jobs job (List.mem_of_getElem? hi)
  obtain ⟨hbatch, htask⟩ := htasks i job hi
  -- the other jobs do not notice what changes in the places of this one
  have hothers (hframe : ∀ q, ¬ (job.worker b).task.Owns begin.files q →
        p'.files.get? q = p.files.get? q)
      (hnew : job'.IsSolo b frontEnd begin p'.files) :
      ∀ job ∈ p'.jobs, job.IsSolo b frontEnd begin p'.files := by
    intro other hother
    obtain ⟨j, hj⟩ := List.mem_iff_getElem?.1 hother
    by_cases hij : i = j
    · subst hij
      obtain rfl := Option.some.inj (hself.symm.trans hj)
      exact hnew
    · rw [hjobs, List.getElem?_set_ne hij] at hj
      rcases h.jobs other (List.mem_of_getElem? hj) with hsolo | hfailed
      · refine .inl (hsolo.of_unchanged fun q hq => hframe q ?_)
        exact hdisjoint j i _ _ (htasks j other hj).2 htask (Ne.symm hij) q hq
      · exact .inr hfailed
  have hidle (hworld : p'.world = p.world) (hworker : job'.worker b = job.worker b)
      (hended : job.ending? = none) : p'.IsApart b frontEnd begin tasks := by
    have hfiles : p'.files = p.files := congrArg World.files hworld
    refine ⟨by rw [hfiles]; exact h.same, by rw [hfiles]; exact h.others, ?_⟩
    refine hothers (fun q _ => by rw [hfiles]) ?_
    rcases hold with hsolo | ⟨⟨e, he⟩, -⟩
    · left
      rw [hworker, hfiles]
      exact hsolo
    · exact absurd (hended.symm.trans he) (by simp)
  cases hmoves with
  | take same => exact hidle same rfl rfl
  | cancel same => exact hidle same rfl rfl
  | @act v v' frontEnd' hact =>
    have hanswered' := hanswered v' (List.mem_of_getElem? hself)
    rcases hold with hsolo | ⟨⟨e, he⟩, -⟩
    · obtain ⟨hbatch', htask'⟩ := Worker.task_of_step hact
      rcases hsolo.step htree h.same hact hanswered' with ⟨hsolo', hsame, hframe⟩ |
        ⟨⟨e, hphase⟩, hfiles, hfails⟩
      · refine ⟨h.same.trans hsame, fun q hq => ?_, hothers hframe (.inl hsolo')⟩
        exact (hframe q (hq _ (List.mem_of_getElem? htask))).trans (h.others q hq)
      · have hfiles : p'.files = p.files := hfiles
        refine ⟨by rw [hfiles]; exact h.same, by rw [hfiles]; exact h.others, ?_⟩
        refine hothers (fun q _ => by rw [hfiles]) (.inr ⟨⟨e, ?_⟩, ?_⟩)
        · exact Job.ending?_taken.2 hphase
        · show ∃ e, (b.alone frontEnd begin v'.task).1 = .error e
          rw [htask', ← (show v.batch = b from hbatch)]
          exact hfails
    · -- who has come to its end takes no step
      rw [Worker.step_eq_none (Job.ending?_taken.1 he)] at hact
      exact absurd hact (by simp)

end IsApart

/-- A job with an outcome has the one that its task has alone, and so have its places. -/
theorem IsApart.alone_eq (h : p.IsApart b frontEnd begin tasks) {job : Job} (hjob : job ∈ p.jobs)
    (hbatch : (job.worker b).batch = b) {o : Outcome} (hended : job.ending? = some (.ok o)) :
    (b.alone frontEnd begin (job.worker b).task).1 = .ok o ∧
      ∀ q, (job.worker b).task.Owns begin.files q → p.files.get? q
        = (b.alone frontEnd begin (job.worker b).task).2.files.get? q := by
  obtain ⟨v, rfl, hphase⟩ := Job.ending?_eq_some_iff.1 hended
  rcases h.jobs _ hjob with hsolo | ⟨⟨e, he⟩, -⟩
  · have halone := Worker.IsSolo.ending_eq hsolo hphase
    rw [hbatch] at halone
    exact halone
  · exact absurd (hended.symm.trans he) (by simp)

/-- A job only fails where its task fails alone. -/
theorem IsApart.exists_error (h : p.IsApart b frontEnd begin tasks) {job : Job}
    (hjob : job ∈ p.jobs) (hbatch : (job.worker b).batch = b) {e : Failure}
    (hended : job.ending? = some (.error e)) :
    ∃ e, (b.alone frontEnd begin (job.worker b).task).1 = .error e := by
  obtain ⟨v, rfl, hphase⟩ := Job.ending?_eq_some_iff.1 hended
  rcases h.jobs _ hjob with hsolo | ⟨-, hfails⟩
  · have halone := Worker.IsSolo.ending_eq hsolo hphase
    rw [hbatch] at halone
    exact ⟨e, halone.1⟩
  · exact hfails

end Pool

/-! ### Batches of tasks that are apart -/

/-- The same files, at the same places. -/
structure FileSystem.Same (fs fs' : FileSystem) : Prop where
  /-- The working directory is the same. -/
  workingDirectory : fs'.workingDirectory = fs.workingDirectory
  /-- Everywhere stands the same. -/
  get?_eq : ∀ q, fs'.get? q = fs.get? q

namespace Batch

variable {b : Batch} {directory : Path} {invs : List Invocation} {w : World} {p p' : Pool}
  {frontEnd : FrontEnd}

theorem isFresh_of_reaches (hreach : Pool.Reaches b (b.pool directory invs w) p) {v : Worker}
    (hv : .taken v ∈ p.jobs) : v.IsFresh := by
  induction hreach generalizing v with
  | refl =>
    obtain ⟨t, -, hne⟩ := List.mem_map.1 hv
    exact absurd hne (by simp)
  | tail _ hstep ih =>
    obtain ⟨i, hi⟩ := List.mem_iff_getElem?.1 hv
    obtain ⟨job, hjob, heq | hmoves⟩ := Pool.exists_job_before_step hstep hi
    · rw [← heq] at hjob
      exact ih (List.mem_of_getElem? hjob)
    · cases hmoves with
      | take => exact .inl rfl
      | act hact => exact (ih (List.mem_of_getElem? hjob)).step hact

/-- What a task comes to alone does not depend on the other tasks that are planned, which are only
told of. -/
theorem alone_pool (invs invs' : List Invocation) (w : World) (t : Task) :
    (b.alone frontEnd (b.pool directory invs' w).world t).1
        = (b.alone frontEnd (b.pool directory invs w).world t).1 ∧
      (b.alone frontEnd (b.pool directory invs' w).world t).2.files
        = (b.alone frontEnd (b.pool directory invs w).world t).2.files := by
  have hsame : (b.pool directory invs' w).world.files = (b.pool directory invs w).world.files := rfl
  exact Program.runIn_of_files frontEnd (b.process t) hsame

section

variable (htree : w.files.IsTree)
  (hdisjoint : (b.tasks directory invs).Pairwise (Task.Disjoint (b.pool directory invs w).files))

include htree hdisjoint

/-- Tasks that have no places in common stay apart. -/
theorem isApart_of_reaches (hreach : Pool.Reaches b (b.pool directory invs w) p)
    (hanswered : p.AnsweredBy frontEnd) :
    p.IsApart b frontEnd (b.pool directory invs w).world (b.tasks directory invs) := by
  have htree' := (makeDirectories_grows w.files directory true).isTree htree
  -- the tasks are apart in either order
  have hne (i j : Nat) (t u : Task) (ht : (b.tasks directory invs)[i]? = some t)
      (hu : (b.tasks directory invs)[j]? = some u) (hij : i ≠ j) :
      t.Disjoint (b.pool directory invs w).files u := by
    obtain ⟨hi, rfl⟩ := List.getElem?_eq_some_iff.1 ht
    obtain ⟨hj, rfl⟩ := List.getElem?_eq_some_iff.1 hu
    have hpairs := List.pairwise_iff_getElem.1 hdisjoint
    rcases Nat.lt_or_gt_of_ne hij with hlt | hgt
    · exact hpairs i j hi hj hlt
    · exact fun q hq hq' => hpairs j i hj hi hgt q hq' hq
  induction hreach with
  | refl =>
    refine ⟨.refl _, fun q _ => rfl, fun job hjob => ?_⟩
    obtain ⟨t, -, rfl⟩ := List.mem_map.1 hjob
    exact .inl (.of_start b t frontEnd _)
  | @tail q q' hreach hstep ih =>
    have hq := Pool.answeredBy_of_step (fun v hv => isFresh_of_reaches hreach hv) hstep hanswered
    exact (ih hq).step htree' (fun i job hi => task_of_reaches hreach hi) hne hstep hanswered

/-- Where no job fails every task has an outcome, and the job has the one that the task has
alone. -/
theorem exists_alone_of_isOver (hreach : Pool.Reaches b (b.pool directory invs w) p)
    (hover : p.IsOver) (hanswered : p.AnsweredBy frontEnd)
    (hgood : ∀ job ∈ p.jobs, ∀ e, job.ending? ≠ some (.error e)) {i : Nat} {t : Task}
    (ht : (b.tasks directory invs)[i]? = some t) :
    ∃ job o, p.jobs[i]? = some job ∧ job.ending? = some (.ok o) ∧
      (b.alone frontEnd (b.pool directory invs w).world t).1 = .ok o ∧
      ∀ q, t.Owns (b.pool directory invs w).files q → p.files.get? q
        = (b.alone frontEnd (b.pool directory invs w).world t).2.files.get? q := by
  have hapart := isApart_of_reaches htree hdisjoint hreach hanswered
  obtain ⟨job, hi, hbatch, rfl⟩ := exists_job_of_task hreach ht
  have hjob := List.mem_of_getElem? hi
  obtain ⟨v, ending, rfl, hphase⟩ := Pool.exists_finished hreach
    (not_cancelled_mem_pool b directory invs w) hover (fun job hjob e => hgood job hjob _) hjob
  have hended := Job.ending?_taken.2 hphase
  cases ending with
  | error e => exact absurd hended (hgood _ hjob e)
  | ok o => exact ⟨_, o, hi, hended, hapart.alone_eq hjob hbatch hended⟩

/-- Where no job fails the jobs have the endings that their tasks have alone. -/
theorem map_ending?_of_isOver (hreach : Pool.Reaches b (b.pool directory invs w) p)
    (hover : p.IsOver) (hanswered : p.AnsweredBy frontEnd)
    (hgood : ∀ job ∈ p.jobs, ∀ e, job.ending? ≠ some (.error e)) :
    p.jobs.map Job.ending? = (b.tasks directory invs).map fun t =>
      some (b.alone frontEnd (b.pool directory invs w).world t).1 := by
  have hlength := length_jobs hreach
  refine List.ext_getElem? fun i => ?_
  rw [List.getElem?_map, List.getElem?_map]
  cases ht : (b.tasks directory invs)[i]? with
  | none =>
    rw [List.getElem?_eq_none_iff, ← hlength, ← List.getElem?_eq_none_iff] at ht
    rw [ht]
    rfl
  | some t =>
    obtain ⟨job, o, hi, hended, ho, -⟩ :=
      exists_alone_of_isOver htree hdisjoint hreach hover hanswered hgood ht
    rw [hi, Option.map_some, Option.map_some, hended, ho]

/-- If no job fails in a pool, then none fails in another one whose tasks are among those of the
first. -/
theorem ne_error_of_subset (hreach : Pool.Reaches b (b.pool directory invs w) p)
    (hover : p.IsOver) (hanswered : p.AnsweredBy frontEnd)
    (hgood : ∀ job ∈ p.jobs, ∀ e, job.ending? ≠ some (.error e)) {invs' : List Invocation}
    (hsubset : b.tasks directory invs' ⊆ b.tasks directory invs)
    (hdisjoint' : (b.tasks directory invs').Pairwise
      (Task.Disjoint (b.pool directory invs w).files))
    (hreach' : Pool.Reaches b (b.pool directory invs' w) p')
    (hanswered' : p'.AnsweredBy frontEnd) :
    ∀ job ∈ p'.jobs, ∀ e, job.ending? ≠ some (.error e) := by
  have hapart' := isApart_of_reaches htree hdisjoint' hreach' hanswered'
  intro job hjob e hended
  obtain ⟨i, hi⟩ := List.mem_iff_getElem?.1 hjob
  obtain ⟨hbatch, htask⟩ := task_of_reaches hreach' hi
  -- what fails here would fail alone
  obtain ⟨e', he'⟩ := hapart'.exists_error hjob hbatch hended
  rw [(alone_pool invs invs' w _).1] at he'
  obtain ⟨k, hk⟩ := List.mem_iff_getElem?.1 (hsubset (List.mem_of_getElem? htask))
  obtain ⟨-, o, -, -, ho, -⟩ :=
    exists_alone_of_isOver htree hdisjoint hreach hover hanswered hgood hk
  rw [ho] at he'
  exact absurd he' (by simp)

/-- If no job fails in one pool of a batch, then none fails in another one. -/
theorem ne_error_of_isOver (hreach : Pool.Reaches b (b.pool directory invs w) p)
    (hover : p.IsOver) (hanswered : p.AnsweredBy frontEnd)
    (hgood : ∀ job ∈ p.jobs, ∀ e, job.ending? ≠ some (.error e))
    (hreach' : Pool.Reaches b (b.pool directory invs w) p')
    (hanswered' : p'.AnsweredBy frontEnd) :
    ∀ job ∈ p'.jobs, ∀ e, job.ending? ≠ some (.error e) :=
  ne_error_of_subset htree hdisjoint hreach hover hanswered hgood (List.Subset.refl _) hdisjoint
    hreach' hanswered'

/-- Two pools with the same tasks, in which no job fails, leave the same files. -/
theorem same_of_mem_iff (hreach : Pool.Reaches b (b.pool directory invs w) p) (hover : p.IsOver)
    (hanswered : p.AnsweredBy frontEnd)
    (hgood : ∀ job ∈ p.jobs, ∀ e, job.ending? ≠ some (.error e)) {invs' : List Invocation}
    (hmem : ∀ t, t ∈ b.tasks directory invs' ↔ t ∈ b.tasks directory invs)
    (hdisjoint' : (b.tasks directory invs').Pairwise
      (Task.Disjoint (b.pool directory invs w).files))
    (hreach' : Pool.Reaches b (b.pool directory invs' w) p') (hover' : p'.IsOver)
    (hanswered' : p'.AnsweredBy frontEnd)
    (hgood' : ∀ job ∈ p'.jobs, ∀ e, job.ending? ≠ some (.error e)) : p.files.Same p'.files := by
  have hapart := isApart_of_reaches htree hdisjoint hreach hanswered
  have hapart' := isApart_of_reaches htree hdisjoint' hreach' hanswered'
  refine ⟨?_, fun q => ?_⟩
  · rw [hapart.same.workingDirectory, hapart'.same.workingDirectory]
    rfl
  · -- a place of a task has what the task leaves alone, and others have what they had
    by_cases howned : ∃ t ∈ b.tasks directory invs, t.Owns (b.pool directory invs w).files q
    · obtain ⟨t, ht, howns⟩ := howned
      obtain ⟨i, hi⟩ := List.mem_iff_getElem?.1 ht
      obtain ⟨k, hk⟩ := List.mem_iff_getElem?.1 ((hmem t).2 ht)
      obtain ⟨-, -, -, -, -, hfiles⟩ :=
        exists_alone_of_isOver htree hdisjoint hreach hover hanswered hgood hi
      obtain ⟨-, -, -, -, -, hfiles'⟩ :=
        exists_alone_of_isOver htree hdisjoint' hreach' hover' hanswered' hgood' hk
      rw [hfiles q howns, hfiles' q howns, (alone_pool invs invs' w t).2]
    · have hnone : ∀ t ∈ b.tasks directory invs, ¬ t.Owns (b.pool directory invs w).files q :=
        fun t ht howns => howned ⟨t, ht, howns⟩
      rw [hapart.others q hnone, hapart'.others q fun t ht => hnone t ((hmem t).1 ht)]
      rfl

/-- Two pools in which no job fails leave the same files. -/
theorem same_of_isOver (hreach : Pool.Reaches b (b.pool directory invs w) p) (hover : p.IsOver)
    (hanswered : p.AnsweredBy frontEnd)
    (hgood : ∀ job ∈ p.jobs, ∀ e, job.ending? ≠ some (.error e))
    (hreach' : Pool.Reaches b (b.pool directory invs w) p') (hover' : p'.IsOver)
    (hanswered' : p'.AnsweredBy frontEnd)
    (hgood' : ∀ job ∈ p'.jobs, ∀ e, job.ending? ≠ some (.error e)) : p.files.Same p'.files :=
  same_of_mem_iff htree hdisjoint hreach hover hanswered hgood (fun _ => Iff.rfl) hdisjoint hreach'
    hover' hanswered' hgood'

end

/-! ### Entries -/

/-- The inputs of invocations that are not left out, in order. -/
def entries (b : Batch) (invs : List Invocation) : List String :=
  (invs.flatMap (·.inputs)).filter fun input => !b.filter.excludes input

/-- The source file of an input. -/
def sourceOf (b : Batch) (input : String) : String :=
  let path := joinText b.settings.sourceDirectory input
  if b.settings.preprocessed then path ++ BatchSettings.preprocessedSuffix else path

theorem task?_plan (b : Batch) (directory : Path) (options : ParseOptions) (input : String) :
    (b.plan directory options input).task? =
      if b.filter.excludes input then none
      else some ⟨b.sourceOf input,
        artifactPath (b.sourceOf input) directory b.settings.extension, options⟩ := by
  unfold plan sourceOf
  split
  · rfl
  · rfl

/-- There is one task for each input that is not left out, in order. -/
theorem map_tasks (b : Batch) (directory : Path) (invs : List Invocation) :
    (b.tasks directory invs).map (fun t => (t.source, t.artifact)) =
      (b.entries invs).map fun input =>
        (b.sourceOf input, artifactPath (b.sourceOf input) directory b.settings.extension) := by
  -- the inputs of one invocation first, then all invocations one after another
  have hinputs (options : ParseOptions) (inputs : List String) :
      ((inputs.map (b.plan directory options)).filterMap Plan.task?).map
          (fun t => (t.source, t.artifact)) =
        (inputs.filter fun input => !b.filter.excludes input).map fun input =>
          (b.sourceOf input, artifactPath (b.sourceOf input) directory b.settings.extension) := by
    induction inputs with
    | nil => rfl
    | cons input rest ih =>
      rw [List.map_cons, List.filterMap_cons, task?_plan, List.filter_cons]
      by_cases hexcluded : b.filter.excludes input = true
      · rw [if_pos hexcluded, if_neg (by simp [hexcluded])]
        exact ih
      · rw [if_neg hexcluded, if_pos (by simp [hexcluded])]
        dsimp only
        rw [List.map_cons, List.map_cons, ih]
  unfold tasks plans entries
  induction invs with
  | nil => rfl
  | cons inv rest ih =>
    rw [List.flatMap_cons, List.flatMap_cons, List.filterMap_append, List.map_append,
      List.filter_append, List.map_append, ih, plansOf, hinputs]

/-- The outcomes of a report are those of the inputs that are not left out, in order. -/
theorem map_outcomes (hreach : Pool.Reaches b (b.pool directory invs w) p) (hover : p.IsOver)
    {report : BatchReport} (hreport : p.result = .ok report) :
    report.outcomes.map (fun o => (o.source, o.artifact)) = (b.entries invs).map fun input =>
      (b.sourceOf input, artifactPath (b.sourceOf input) directory b.settings.extension) := by
  rw [← map_tasks]
  refine List.ext_getElem? fun i => ?_
  rw [List.getElem?_map, List.getElem?_map]
  cases ho : report.outcomes[i]? with
  | none =>
    rw [List.getElem?_eq_none_iff, length_outcomes hreach hover hreport,
      ← List.getElem?_eq_none_iff] at ho
    rw [ho]
    rfl
  | some o =>
    obtain ⟨v, -, htask, -, haccurate⟩ := accurate_of_result hreach hover hreport ho
    rw [htask, Option.map_some, Option.map_some, haccurate.task.1, haccurate.task.2]

/-! ### Names that differ -/

/-- The places of a task are called like its artifact. -/
theorem exists_concat_of_owns {fs : FileSystem} {t : Task} (hnil : t.artifact.names ≠ [])
    (hup : t.artifact.name ≠ "..") {q : Place} (h : t.Owns fs q) :
    ∃ d suffix, suffix ∈ ["", ".lock", ".tmp"] ∧ q = d ++ [t.artifact.name ++ suffix] := by
  rcases h with hplace | hplace | hplace
  · obtain ⟨d, hd⟩ := exists_concat_of_name hnil hup hplace
    exact ⟨d, "", by simp, by rw [hd, String.append_empty]⟩
  · obtain ⟨d, hd⟩ := exists_concat_of_place? (by decide) hplace
    exact ⟨d, ".lock", by simp, hd⟩
  · obtain ⟨d, hd⟩ := exists_concat_of_place? (by decide) hplace
    exact ⟨d, ".tmp", by simp, hd⟩

/-- Artifacts with different names have no place in common, and neither have their locks and the
files that they are written to first, if none is called like what stands beside another one. -/
theorem disjoint_of_name_ne {fs : FileSystem} {t u : Task} (ht : t.artifact.names ≠ [])
    (hu : u.artifact.names ≠ []) (ht' : t.artifact.name ≠ "..") (hu' : u.artifact.name ≠ "..")
    (hne : t.artifact.name ≠ u.artifact.name) (hapart : t.artifact.Apart u.artifact)
    (hapart' : u.artifact.Apart t.artifact) : t.Disjoint fs u := by
  intro q howns howns'
  obtain ⟨d, suffix, hsuffix, rfl⟩ := exists_concat_of_owns ht ht' howns
  obtain ⟨d', suffix', hsuffix', heq⟩ := exists_concat_of_owns hu hu' howns'
  have hname := (concat_inj heq).2
  simp only [List.mem_cons, List.not_mem_nil, or_false] at hsuffix hsuffix'
  -- the place is that of the artifact, of the lock or of the file beside, for each of the tasks
  rcases hsuffix with rfl | rfl | rfl
  · rw [String.append_empty] at hname
    rcases hsuffix' with rfl | rfl | rfl
    · rw [String.append_empty] at hname
      exact hne hname
    · exact hapart.lock hname
    · exact hapart.temp hname
  · rcases hsuffix' with rfl | rfl | rfl
    · rw [String.append_empty] at hname
      exact hapart'.lock hname.symm
    · exact hne ((String.append_left_inj _).1 hname)
    · exact append_lock_ne_append_tmp _ _ hname
  · rcases hsuffix' with rfl | rfl | rfl
    · rw [String.append_empty] at hname
      exact hapart'.temp hname.symm
    · exact append_lock_ne_append_tmp _ _ hname.symm
    · exact hne ((String.append_left_inj _).1 hname)

/-- With an extension that is a name without points, and neither that of locks nor that of the files
written first, artifacts with different names are apart. -/
theorem pairwise_disjoint (hempty : b.settings.extension ≠ "")
    (hslash : '/' ∉ b.settings.extension.toList) (hpoint : '.' ∉ b.settings.extension.toList)
    (hlock : b.settings.extension ≠ "lock") (htemp : b.settings.extension ≠ "tmp")
    (hnames : ((b.tasks directory invs).map fun t => t.artifact.name).Nodup) (fs : FileSystem) :
    (b.tasks directory invs).Pairwise (Task.Disjoint fs) := by
  have hapart : ∀ t ∈ b.tasks directory invs, ∀ u ∈ b.tasks directory invs,
      t.artifact.Apart u.artifact := apart_of_extension hempty hslash hpoint hlock htemp
  have hname {t : Task} (ht : t ∈ b.tasks directory invs) :
      t.artifact.names ≠ [] ∧ t.artifact.name ≠ ".." := by
    obtain ⟨source, hsource⟩ := exists_artifactPath_of_mem_tasks ht
    obtain ⟨stem, hstem⟩ := exists_name_artifactPath source directory hempty hslash
    rw [← hsource] at hstem
    constructor
    · refine Path.names_ne_nil fun hnone => ?_
      rw [hnone] at hstem
      exact absurd hstem.symm (by simp)
    · intro hup
      rw [hup] at hstem
      have hnil := extension_inj (a := ['.']) (e := []) (by simp) hpoint hstem
      exact hempty (String.toList_eq_nil_iff.1 hnil.symm)
  refine (List.pairwise_map.1 hnames).imp_of_mem fun ht hu hne => ?_
  exact disjoint_of_name_ne (hname ht).1 (hname hu).1 (hname ht).2 (hname hu).2 hne
    (hapart _ ht _ hu) (hapart _ hu _ ht)

/-! ### Whatever the schedule -/

/-- **Schedules do not matter.**  From files that form a tree, with the output directory made, and
with a parser that answers by source and options: if the paths of different tasks lead to different
places, then any number of workers that take their steps in any order, and come to an end without a
failure, come to the report of the tasks handled one after another, and leave the same files.  The
report tells of the inputs that are not left out, in order. -/
theorem independent_of_schedule (hworkers : 0 < b.settings.workers) (htree : w.files.IsTree)
    (hdirectory : b.settings.outputDirectory = .ok directory)
    (hmake : (w.files.makeDirectories directory true).2 = .ok ())
    (hdisjoint : (b.tasks directory invs).Pairwise
      (Task.Disjoint (b.pool directory invs w).files))
    (hreach : Pool.Reaches b (b.pool directory invs w) p) (hover : p.IsOver)
    (hanswered : p.AnsweredBy frontEnd)
    (hgood : ∀ job ∈ p.jobs, ∀ e, job.ending? ≠ some (.error e)) :
    ∃ report, p.result = .ok report ∧
      ((b.run invs).runIn frontEnd w).1 = .ok report ∧
      ((b.run invs).runIn frontEnd w).2.files.Same p.files ∧
      report.outcomes.map (fun o => (o.source, o.artifact)) = (b.entries invs).map fun input =>
        (b.sourceOf input, artifactPath (b.sourceOf input) directory b.settings.extension) := by
  -- handling the tasks one after another is one way to go, and all ways lead to the same
  obtain ⟨p', hreach', hover', hanswered', hfiles, hresult⟩ :=
    exists_reaches_result invs frontEnd hworkers hdirectory hmake
  have hgood' := ne_error_of_isOver htree hdisjoint hreach hover hanswered hgood hreach' hanswered'
  have hmap := map_ending?_of_isOver htree hdisjoint hreach hover hanswered hgood
  have hmap' := map_ending?_of_isOver htree hdisjoint hreach' hover' hanswered' hgood'
  have hsame := same_of_isOver htree hdisjoint hreach' hover' hanswered' hgood' hreach hover
    hanswered hgood
  have hresult' : p.result = p'.result := by
    have hendings := congrArg (List.filterMap id) (hmap.trans hmap'.symm)
    rw [List.filterMap_map, List.filterMap_map] at hendings
    exact congrArg collect hendings
  obtain ⟨report, hreport⟩ := Pool.exists_result hgood
  refine ⟨report, hreport, ?_, ?_, map_outcomes hreach hover hreport⟩
  · rw [← hresult, ← hresult', hreport]
  · rw [← hfiles]
    exact hsame

/-- The small batch with two workers. -/
def pairBatch : Batch :=
  { smallBatch with settings := { smallBatch.settings with workers := 2 } }

/-- The endings of two tasks where the second one is done first. -/
def swapped (b : Batch) (frontEnd : FrontEnd) (t u : Task) (w : World) : List Ending :=
  let second := (b.process u).runIn frontEnd w
  [((b.process t).runIn frontEnd second.2).1, second.1]

/-- Two workers can take two tasks, so that the second task is done before the first one begins. -/
theorem exists_reaches_swapped (frontEnd : FrontEnd) (hworkers : 2 ≤ b.settings.workers)
    (t u : Task) (w : World) :
    ∃ p, Pool.Reaches b ⟨w, [t, u].map Job.waiting⟩ p ∧ p.IsOver ∧ p.AnsweredBy frontEnd ∧
      p.jobs.map Job.ending? = (b.swapped frontEnd t u w).map some := by
  -- both tasks are taken before either goes on
  have hfirst : Pool.Step b ⟨w, [] ++ Job.waiting t :: [.waiting u]⟩
      ⟨w, [] ++ Job.taken (.start b t) :: [.waiting u]⟩ := by
    refine .take (by simp) ?_
    show ((0 : Nat) : Int) < b.settings.workers
    omega
  have hsecond : Pool.Step b ⟨w, [Job.taken (.start b t)] ++ Job.waiting u :: []⟩
      ⟨w, [Job.taken (.start b t)] ++ Job.taken (.start b u) :: []⟩ := by
    refine .take (by simp [Job.IsWaiting]) ?_
    show ((1 : Nat) : Int) < b.settings.workers
    omega
  -- then the second goes to its end, and the first behind it
  obtain ⟨v', w', ending', hphase', hanswered', hrun', hreach'⟩ :=
    Pool.exists_reaches_finished b [.taken (.start b t)] [] (.start b u) (.start b u frontEnd) w
  obtain ⟨v, w'', ending, hphase, hanswered, hrun, hreach⟩ :=
    Pool.exists_reaches_finished b [] [.taken v'] (.start b t) (.start b t frontEnd) w'
  have hrun' : (b.process u).runIn frontEnd w = (ending', w') := hrun'
  have hrun : (b.process t).runIn frontEnd w' = (ending, w'') := hrun
  have hended := Job.ending?_taken.2 hphase
  have hended' := Job.ending?_taken.2 hphase'
  refine ⟨⟨w'', [.taken v, .taken v']⟩, .head hfirst (.head hsecond (hreach'.trans hreach)),
    ?_, ?_, ?_⟩
  · refine List.forall_mem_cons.2 ⟨?_, List.forall_mem_singleton.2 ?_⟩
    · exact fun hnone => absurd (hended.symm.trans hnone) (by simp)
    · exact fun hnone => absurd (hended'.symm.trans hnone) (by simp)
  · intro x hx
    rcases List.mem_pair.1 hx with heq | heq
    · rwa [Job.taken.inj heq]
    · rwa [Job.taken.inj heq]
  · rw [swapped, hrun', hrun, List.map_cons, List.map_cons, hended, hended']
    rfl

/-- Two workers take both sources of a small batch, and the second one is done first. -/
theorem exists_reaches_pairBatch :
    ∃ p, Pool.Reaches pairBatch (pairBatch.pool smallDirectory [smallInvocation] .fresh) p ∧
      p.IsOver ∧ p.AnsweredBy Crew.findsNothing ∧
      ∀ job ∈ p.jobs, ∀ e, job.ending? ≠ some (.error e) := by
  obtain ⟨t, u, htasks, hgood⟩ : ∃ t u,
      pairBatch.tasks smallDirectory [smallInvocation] = [t, u] ∧
      ∀ ending ∈ pairBatch.swapped Crew.findsNothing t u
        (pairBatch.pool smallDirectory [smallInvocation] .fresh).world, ending.isOk = true :=
    ⟨_, _, rfl, by decide +kernel⟩
  obtain ⟨p, hreach, hover, hanswered, hmap⟩ := exists_reaches_swapped (b := pairBatch)
    Crew.findsNothing (by decide) t u (pairBatch.pool smallDirectory [smallInvocation] .fresh).world
  rw [← htasks] at hreach
  refine ⟨p, hreach, hover, hanswered, fun job hjob e hfailed => ?_⟩
  have hmem := List.mem_map_of_mem (f := Job.ending?) hjob
  rw [hmap, hfailed] at hmem
  obtain ⟨ending, hending, heq⟩ := List.mem_map.1 hmem
  obtain rfl := Option.some.inj heq
  exact Bool.false_ne_true (hgood _ hending)

/-- What comes of two sources does not depend on which one is done first. -/
theorem independent_pairBatch :
    ∃ p report, 0 < pairBatch.settings.workers ∧ World.fresh.files.IsTree ∧
      pairBatch.settings.outputDirectory = .ok smallDirectory ∧
      (World.fresh.files.makeDirectories smallDirectory true).2 = .ok () ∧
      (pairBatch.tasks smallDirectory [smallInvocation]).Pairwise
        (Task.Disjoint (pairBatch.pool smallDirectory [smallInvocation] .fresh).files) ∧
      Pool.Reaches pairBatch (pairBatch.pool smallDirectory [smallInvocation] .fresh) p ∧
      p.IsOver ∧ p.AnsweredBy Crew.findsNothing ∧
      (∀ job ∈ p.jobs, ∀ e, job.ending? ≠ some (.error e)) ∧ p.result = .ok report ∧
      ((pairBatch.run [smallInvocation]).runIn Crew.findsNothing .fresh).1 = .ok report ∧
      ((pairBatch.run [smallInvocation]).runIn Crew.findsNothing .fresh).2.files.Same p.files := by
  obtain ⟨p, hreach, hover, hanswered, hgood⟩ := exists_reaches_pairBatch
  have hdisjoint : (pairBatch.tasks smallDirectory [smallInvocation]).Pairwise
      (Task.Disjoint (pairBatch.pool smallDirectory [smallInvocation] .fresh).files) :=
    pairwise_disjoint (by decide) (by decide) (by decide) (by decide) (by decide)
      (by decide +kernel) _
  obtain ⟨report, hresult, hrun, hfiles, -⟩ := independent_of_schedule (b := pairBatch) (by decide)
    .fresh rfl made_smallBatch hdisjoint hreach hover hanswered hgood
  exact ⟨p, report, by decide, .fresh, rfl, made_smallBatch, hdisjoint, hreach, hover, hanswered,
    hgood, hresult, hrun, hfiles⟩

end Batch

end DeclGraph
