import DeclGraph.Proofs.Batch.Atomic
import DeclGraph.Proofs.Batch.Course
import DeclGraph.Proofs.Batch.Progress

/-!
# Behind a task

Right behind a task its artifact is there, complete, if it was dumped; it is not there if the task
failed; and it or its lock is there if the task was skipped (`Worker.Leaves`).  That needs what
holds while a lock is given back (`Worker.Reports`): nobody else makes an artifact whose lock is
taken, and an artifact that is there stays there (`Crew.Sound.there_of_stepOf`).

`Batch.lawful_of_result` puts this together with the courses of the files, for every batch with a
report.
-/

namespace DeclGraph

open FileSystem

/-! ### While locks are given back -/

namespace Worker

variable {v v' : Worker} {w w' : World} {frontEnd : FrontEnd} {o : Outcome} {ending : Ending}
variable {start fs fs' : FileSystem} {d : Place}

/-- What a worker can tell of its artifact while it gives its lock back. -/
def Reports (start fs : FileSystem) (v : Worker) : Prop :=
  match v.phase with
  | .yielding => ∃ p, start.place? v.artifact = some p ∧ fs.get? p ≠ none
  | .releasing ending => ¬ ending.IsDumped →
      ∃ d, start.Seats v.artifact d ∧ fs.get? (d ++ [v.artifact.name]) = none
  | _ => True

/-- An artifact that a worker was at and did not dump is not there. -/
theorem Effect.absent (h : Effect start v fs v' fs') (hmakes : Makes start fs v.artifact d)
    (hdumped : ¬ v'.phase.Dumped) : fs'.get? (d ++ [v.artifact.name]) = none := by
  rcases h.changes (d ++ [v.artifact.name]) with heq | ⟨-, heq | htouches⟩
  · rw [heq, hmakes.absent]
  · rw [heq, hmakes.new]
  · -- of all that a worker accounts for only a dumped artifact stands in this place
    have hne {suffix : String} (hsuffix : suffix ≠ "")
        (hplace : start.place? (v.artifact.beside suffix) = some (d ++ [v.artifact.name]))
        (hseat : start.place? (v.artifact.beside suffix)
          = some (d ++ [v.artifact.name ++ suffix])) : False :=
      beside_ne d d _ hsuffix (Option.some.inj (hplace.symm.trans hseat))
    cases htouches with
    | lock holds place =>
      rw [h.artifact_eq] at place
      exact absurd hmakes.seats.lock (hne (by decide) place)
    | temp busy place =>
      rw [h.artifact_eq] at place
      exact absurd hmakes.seats.temp (hne (by decide) place)
    | artifact dumped => exact absurd dumped hdumped
    | stale settled dumping place =>
      rw [h.artifact_eq] at place
      exact absurd hmakes.seats.temp (hne (by decide) place)

theorem reports_of_step (hsame : SameDirectories start w.files)
    (hsound : v.Sound start w.files) (heffect : Effect start v w.files v' w'.files)
    (h : v.step frontEnd w = some (v', w')) : v'.Reports start w'.files := by
  have hleads := leads_of_step h
  unfold Reports
  rw [heffect.artifact_eq]
  split
  · next hphase =>
    rw [hphase] at hleads
    cases hleads with
    | goesOn _ keeps => exact absurd rfl keeps
    -- it has just found the artifact
    | yields same there =>
      obtain ⟨p, hplace, hthere⟩ := exists_of_at?_ne_none there
      rw [hsame.place?_eq] at hplace
      rw [same]
      exact ⟨p, hplace, hthere⟩
  · next ending hphase =>
    rw [hphase] at hleads
    cases hleads with
    | goesOn undecided => exact absurd undecided (by simp [Phase.ending?])
    -- it was at the artifact, which was not there
    | releases works =>
      intro hdumps
      obtain ⟨d, hmakes⟩ := hsound.makes works
      refine ⟨d, hmakes.seats, heffect.absent hmakes ?_⟩
      exact Phase.not_dumped_of_ending (by rw [hphase]; rfl) hdumps
  · trivial

end Worker

namespace Crew

variable {start : FileSystem} {c c' : Crew} {i j : Nat} {u v : Worker} {p d : Place}

theorem lawful_of_reaches (hnew : c.IsNew) (h : Reaches c c') : ∀ v ∈ c'.workers, v.Lawful := by
  refine h.forall_workers (fun hv hstep => hv.step hstep) fun v hv => ?_
  rw [Worker.Lawful, hnew v hv]
  trivial

namespace Sound

/-- Where an artifact is, only a directory is in the way of a change. -/
theorem directory_of_mayChange (htree : start.IsTree) (hs : Sound start c)
    (hi : c.workers[i]? = some v) (hj : c.workers[j]? = some u)
    (hmay : v.MayChange start c.files p) (hplace : start.place? u.artifact = some p)
    (hthere : c.files.get? p ≠ none) : c.files.get? p = some .directory := by
  rcases htree.directory_or_concat hplace with hdir | ⟨d, rfl⟩
  · exact (hs.same.iff p).2 hdir
  · -- neither a lock nor a file beside an artifact is called like this one
    have hapart := hs.apart j i u v hj hi
    cases hmay with
    | claim place free => exact absurd free hthere
    | lock holds place =>
      obtain ⟨d', hd'⟩ := exists_concat_of_place? (by decide) place
      exact absurd (concat_inj hd').2 hapart.lock
    | temp works place =>
      obtain ⟨d', hd'⟩ := exists_concat_of_place? (by decide) place
      exact absurd (concat_inj hd').2 hapart.temp
    | artifact works place =>
      obtain ⟨d', hmakes⟩ := (hs.worker i v hi).makes works
      have habsent := hmakes.absent
      rw [Option.some.inj (hmakes.seats.file.symm.trans place)] at habsent
      exact absurd habsent hthere

/-- An artifact that is there stays there. -/
theorem there_of_stepOf (htree : start.IsTree) (hs : Sound start c) (h : StepOf i c c')
    (hj : c.workers[j]? = some u) (hplace : start.place? u.artifact = some p)
    (hthere : c.files.get? p ≠ none) : c'.files.get? p ≠ none := by
  obtain ⟨frontEnd, v, v', w', hi, hstep, rfl⟩ := h
  have heffect := hs.effect htree hi hstep
  rcases heffect.changes p with heq | ⟨hmay, -⟩
  · rwa [heq]
  · have hdir := hs.directory_of_mayChange htree hi hj hmay hplace hthere
    rw [(heffect.same.iff p).2 hdir]
    simp

/-- No other worker may change the artifact of a worker that holds its lock. -/
theorem not_mayChange_of_holds (hs : Sound start c) (hi : c.workers[i]? = some v)
    (hj : c.workers[j]? = some u) (hne : i ≠ j) (hholds : u.phase.Holds)
    (hseats : start.Seats u.artifact d) : ¬ v.MayChange start c.files (d ++ [u.artifact.name]) := by
  have hapart := hs.apart j i u v hj hi
  intro hmay
  cases hmay with
  | claim place | lock _ place =>
    obtain ⟨d', hd'⟩ := exists_concat_of_place? (by decide) place
    exact hapart.lock (concat_inj hd').2
  | temp works place =>
    obtain ⟨d', hd'⟩ := exists_concat_of_place? (by decide) place
    exact hapart.temp (concat_inj hd').2
  | artifact works place =>
    -- both hold the lock of this artifact, so they are the same worker
    obtain ⟨d', hmakes⟩ := (hs.worker i v hi).makes works
    obtain ⟨rfl, hname⟩ := concat_inj (Option.some.inj (hmakes.seats.file.symm.trans place))
    refine hne (hs.exclusive i j v u hi hj works.holds hholds ?_)
    dsimp only
    rw [hmakes.seats.lock, hseats.lock, hname]

/-- Every step keeps what workers can tell of their artifacts. -/
theorem reports_of_stepOf (htree : start.IsTree) (hs : Sound start c) (h : StepOf i c c')
    (hreports : ∀ u ∈ c.workers, u.Reports start c.files) :
    ∀ u ∈ c'.workers, u.Reports start c'.files := by
  have hstepOf := h
  obtain ⟨frontEnd, v, v', w', hi, hstep, rfl⟩ := h
  have heffect := hs.effect htree hi hstep
  intro u hu
  obtain ⟨j, hj⟩ := List.mem_iff_getElem?.1 hu
  -- the worker that took the step, or one that stood still meanwhile
  rcases (getElem?_set_eq_some_iff hi).1 hj with ⟨-, rfl⟩ | ⟨hji, hj⟩
  · exact Worker.reports_of_step hs.same (hs.worker i v hi) heffect hstep
  · have hold := hreports u (List.mem_of_getElem? hj)
    unfold Worker.Reports at hold ⊢
    split
    · next hphase =>
      rw [hphase] at hold
      obtain ⟨p, hplace, hthere⟩ := hold
      exact ⟨p, hplace, hs.there_of_stepOf htree hstepOf hj hplace hthere⟩
    · next ending hphase =>
      rw [hphase] at hold
      intro hdumps
      obtain ⟨d, hseats, habsent⟩ := hold hdumps
      refine ⟨d, hseats, ?_⟩
      rcases heffect.changes (d ++ [u.artifact.name]) with heq | ⟨hmay, -⟩
      · exact heq.trans habsent
      · have hholds : u.phase.Holds := by rw [hphase]; trivial
        exact absurd hmay (hs.not_mayChange_of_holds hi hj (Ne.symm hji) hholds hseats)
    · trivial

theorem reports_of_reaches (htree : start.IsTree) (hs : Sound start c) (hnew : c.IsNew)
    (h : Reaches c c') : ∀ u ∈ c'.workers, u.Reports start c'.files := by
  induction h with
  | refl =>
    intro u hu
    rw [Worker.Reports, hnew u hu]
    trivial
  | tail hreach hstep ih =>
    obtain ⟨i, hstep⟩ := hstep
    exact (hs.reaches htree hreach).reports_of_stepOf htree hstep ih

end Sound

end Crew

/-! ### Tasks that have ended -/

/-- What stands where the artifact of a worker belongs, right behind its task. -/
structure Worker.Leaves (v : Worker) (o : Outcome) (fs : FileSystem) : Prop where
  /-- What was dumped is there, with all that the worker was to write. -/
  dumped : o.status = .dumped → ∃ text, v.Writes text ∧
    fs.at? v.artifact = some (.file (Utf8.encode text))
  /-- Of a file that failed nothing is there. -/
  failed : o.status.isFailure = true → fs.at? v.artifact = none
  /-- A file is skipped since it is there, or since its lock is. -/
  skipped : o.status = .skipped → fs.at? v.artifact ≠ none ∨ fs.at? (lockPath v.artifact) ≠ none

theorem Worker.Leaves.of_skipped {v : Worker} {t : Task} {fs : FileSystem}
    (h : fs.at? v.artifact ≠ none ∨ fs.at? (lockPath v.artifact) ≠ none) :
    v.Leaves t.skipped fs where
  dumped hstatus := absurd hstatus (by simp [Task.skipped, Outcome.status])
  failed hstatus := absurd hstatus (by simp [Task.skipped, Outcome.status, Status.isFailure])
  skipped _ := h

namespace Crew

variable {start : FileSystem} {c c' : Crew} {i : Nat} {v v' : Worker} {o : Outcome}

theorem Sound.leaves_of_stepOf (htree : start.IsTree) (hs : Sound start c)
    (hreports : v.Reports start c.files) (hlawful : v.Lawful) {frontEnd : FrontEnd} {w' : World}
    (hi : c.workers[i]? = some v) (hstep : v.step frontEnd c.world = some (v', w'))
    (hphase : v'.phase = .finished (.ok o)) : v'.Leaves o w'.files := by
  have heffect := hs.effect htree hi hstep
  have hsame : SameDirectories start w'.files := hs.same.trans heffect.same
  have hleads := Worker.leads_of_step hstep
  rw [hphase] at hleads
  cases hleads with
  | goesOn undecided => exact absurd undecided (by simp [Phase.ending?])
  | found _ same there =>
    refine .of_skipped (.inl ?_)
    rw [same, heffect.artifact_eq]
    exact there
  | claimed _ same there =>
    refine .of_skipped (.inr ?_)
    rw [same, heffect.artifact_eq]
    exact there
  | yielded hyields =>
    -- the artifact had come up before the lock was given back, and is there still
    rw [Worker.Reports, hyields] at hreports
    obtain ⟨p, hplace, hthere⟩ := hreports
    refine .of_skipped (.inl ?_)
    have hstays : w'.files.get? p ≠ none :=
      hs.there_of_stepOf htree ⟨frontEnd, v, v', w', hi, hstep, rfl⟩ hi hplace hthere
    rwa [heffect.artifact_eq, at?_of_place? ((hsame.place?_eq _).trans hplace)]
  | released hreleases =>
    constructor
    · intro hstatus
      have hdumped : v'.phase.Dumped := hphase ▸ Phase.dumped_finished_iff.2 hstatus
      obtain ⟨-, d, text, hseats, -, hwrites, hthere⟩ := heffect.sound.completes hdumped
      refine ⟨text, hwrites, ?_⟩
      rwa [at?_of_place? ((hsame.place?_eq _).trans hseats.file)]
    · intro hstatus
      have hdumps : ¬ Ending.IsDumped (.ok o) := by
        intro hdumped
        have hdumped : o.status = .dumped := hdumped
        rw [hdumped] at hstatus
        exact absurd hstatus (by decide)
      rw [Worker.Reports, hreleases] at hreports
      obtain ⟨d, hseats, habsent⟩ := hreports hdumps
      rw [heffect.artifact_eq, at?_of_place? ((hsame.place?_eq _).trans hseats.file)]
      -- who gives its lock back changes nothing but the lock
      rcases heffect.changes (d ++ [v.artifact.name]) with heq | ⟨hmay, -⟩
      · exact heq.trans habsent
      · cases hmay with
        | claim place | lock _ place =>
          exact absurd (Option.some.inj (place.symm.trans hseats.lock))
            (beside_ne d d _ (by decide))
        | temp works | artifact works =>
          rw [hreleases] at works
          exact absurd works id
    · intro hstatus
      rw [Worker.Lawful, hreleases] at hlawful
      exact absurd hstatus (hlawful o rfl).2

end Crew

/-! ### Batches with a report -/

namespace Batch

variable {b : Batch} {directory : Path} {invs : List Invocation} {w : World} {p q q' : Pool}
  {v : Worker} {o : Outcome}

/-- What holds of the files of a batch with a report. -/
structure Lawful (b : Batch) (directory : Path) (invs : List Invocation) (begin p : Pool)
    (report : BatchReport) : Prop where
  /-- There is one outcome for each task. -/
  length : report.outcomes.length = (b.tasks directory invs).length
  /-- It is accurate, and comes of what the parser gave to the worker of the task. -/
  outcome : ∀ (i : Nat) (o : Outcome), report.outcomes[i]? = some o →
    ∃ v, p.jobs[i]? = some (.taken v) ∧ (b.tasks directory invs)[i]? = some v.task ∧
      v.phase = .finished (.ok o) ∧ o.Accurate v.task v.compilation?
  /-- At no time is anything written of a compilation with errors. -/
  clean : ∀ (q : Pool) (v : Worker), Pool.Reaches b begin q → .taken v ∈ q.jobs → v.phase.Dumps →
    v.IsClean
  /-- Right behind each task the artifact is there, or not, as the outcome says. -/
  leaves : ∀ (q q' : Pool) (i : Nat) (v : Worker) (o : Outcome), Pool.Reaches b begin q →
    Pool.Step b q q' → q.jobs[i]? ≠ some (.taken v) → q'.jobs[i]? = some (.taken v) →
      v.phase = .finished (.ok o) → v.Leaves o q'.files

theorem lawful_of_reaches (hreach : Pool.Reaches b (b.pool directory invs w) p)
    (hv : .taken v ∈ p.jobs) : v.Lawful := by
  obtain ⟨i, hi⟩ := Pool.exists_getElem? (b := b) hv
  exact Crew.lawful_of_reaches (isNew_pool b directory invs w) (Pool.crew_reaches hreach) v
    (List.mem_of_getElem? hi)

theorem leaves_of_step (htree : w.files.IsTree)
    (hapart : ∀ t ∈ b.tasks directory invs, ∀ u ∈ b.tasks directory invs,
      t.artifact.Apart u.artifact)
    (hreach : Pool.Reaches b (b.pool directory invs w) q) (hstep : Pool.Step b q q') {i : Nat}
    (hbefore : q.jobs[i]? ≠ some (.taken v)) (hafter : q'.jobs[i]? = some (.taken v))
    (hphase : v.phase = .finished (.ok o)) : v.Leaves o q'.files := by
  have htree' := (makeDirectories_grows w.files directory true).isTree htree
  have hs := sound_of_reaches htree hapart hreach
  have hnew := isNew_pool b directory invs w
  have hbegin := sound_of_reaches (p := b.pool directory invs w) htree hapart .refl
  obtain ⟨job, hi, heq | hmoves⟩ := Pool.exists_job_before_step hstep hafter
  · exact absurd (heq ▸ hi) hbefore
  · cases hmoves with
    | take => exact absurd hphase (by simp [Worker.start])
    | @act u v frontEnd hact =>
      have hu : (q.crew b).workers[i]? = some u := Pool.getElem?_crew b hi
      have hmem := List.mem_of_getElem? hu
      have hreports := hbegin.reports_of_reaches htree' hnew (Pool.crew_reaches hreach) u hmem
      exact hs.leaves_of_stepOf htree' hreports (lawful_of_reaches hreach (List.mem_of_getElem? hi))
        hu hact hphase

theorem not_cancelled_mem_pool (b : Batch) (directory : Path) (invs : List Invocation) (w : World)
    (t : Task) : .cancelled t ∉ (b.pool directory invs w).jobs := by
  simp [pool]

theorem not_taken_mem_pool (b : Batch) (directory : Path) (invs : List Invocation) (w : World)
    (v : Worker) : .taken v ∉ (b.pool directory invs w).jobs := by
  simp [pool]

theorem length_jobs (hreach : Pool.Reaches b (b.pool directory invs w) p) :
    p.jobs.length = (b.tasks directory invs).length := by
  rw [Pool.length_jobs_of_reaches hreach, pool, List.length_map]

/-- Every task has its job. -/
theorem exists_job_of_task (hreach : Pool.Reaches b (b.pool directory invs w) p) {i : Nat}
    {t : Task} (ht : (b.tasks directory invs)[i]? = some t) :
    ∃ job, p.jobs[i]? = some job ∧ (job.worker b).batch = b ∧ (job.worker b).task = t := by
  have hlt : i < p.jobs.length := by
    rw [length_jobs hreach]
    exact (List.getElem?_eq_some_iff.1 ht).1
  have hi := List.getElem?_eq_getElem hlt
  obtain ⟨hbatch, htask⟩ := task_of_reaches hreach hi
  exact ⟨_, hi, hbatch, Option.some.inj (htask.symm.trans ht)⟩

theorem length_outcomes (hreach : Pool.Reaches b (b.pool directory invs w) p) (hover : p.IsOver)
    {report : BatchReport} (hreport : p.result = .ok report) :
    report.outcomes.length = (b.tasks directory invs).length := by
  have hmap := Pool.map_ending?_of_result hreach (not_cancelled_mem_pool b directory invs w) hover
    hreport
  have hlength := congrArg List.length hmap
  rw [List.length_map, List.length_map] at hlength
  rw [← hlength, length_jobs hreach]

/-- Each outcome of a report is accurate, and comes of what the parser gave to the worker of its
task. -/
theorem accurate_of_result (hreach : Pool.Reaches b (b.pool directory invs w) p)
    (hover : p.IsOver) {report : BatchReport} (hreport : p.result = .ok report) {i : Nat}
    (ho : report.outcomes[i]? = some o) :
    ∃ v, p.jobs[i]? = some (.taken v) ∧ (b.tasks directory invs)[i]? = some v.task ∧
      v.phase = .finished (.ok o) ∧ o.Accurate v.task v.compilation? := by
  have hlt : i < p.jobs.length := by
    rw [length_jobs hreach, ← length_outcomes hreach hover hreport]
    exact (List.getElem?_eq_some_iff.1 ho).1
  have hi := List.getElem?_eq_getElem hlt
  obtain ⟨v, o', hv, hphase, ho'⟩ := Pool.exists_worker_of_result hreach
    (not_cancelled_mem_pool b directory invs w) hover hreport hi
  obtain rfl := Option.some.inj (ho.symm.trans ho')
  rw [hv] at hi
  refine ⟨v, hi, (task_of_reaches hreach hi).2, hphase, ?_⟩
  exact ((lawful_of_reaches hreach (List.mem_of_getElem? hi)).comesTo hphase).accurate

/-- **The files of a batch go their ways.**  From files that form a tree, with the output directory
made, however any number of workers take their steps and whatever the parser answers: if the batch
has a report, each task has an outcome in it that is accurate; nothing is ever written of a
compilation with errors; and right behind each task its artifact is there as the outcome says. -/
theorem lawful_of_result (htree : w.files.IsTree)
    (hapart : ∀ t ∈ b.tasks directory invs, ∀ u ∈ b.tasks directory invs,
      t.artifact.Apart u.artifact)
    (hreach : Pool.Reaches b (b.pool directory invs w) p) (hover : p.IsOver) {report : BatchReport}
    (hreport : p.result = .ok report) :
    Lawful b directory invs (b.pool directory invs w) p report where
  length := length_outcomes hreach hover hreport
  outcome _ _ ho := accurate_of_result hreach hover hreport ho
  clean _ _ hq hv hdumps := (lawful_of_reaches hq hv).isClean hdumps
  leaves _ _ _ _ _ hq hstep := leaves_of_step htree hapart hq hstep

theorem apart_smallBatch : ∀ t ∈ smallBatch.tasks smallDirectory [smallInvocation],
    ∀ u ∈ smallBatch.tasks smallDirectory [smallInvocation], t.artifact.Apart u.artifact :=
  apart_of_extension (by decide) (by decide) (by decide) (by decide) (by decide)

theorem made_smallBatch : (World.fresh.files.makeDirectories smallDirectory true).2 = .ok () := by
  decide +kernel

/-- Both sources of a small batch can be dumped. -/
theorem exists_report_smallBatch :
    ∃ p report,
      Pool.Reaches smallBatch (smallBatch.pool smallDirectory [smallInvocation] .fresh) p ∧
      p.IsOver ∧ p.AnsweredBy Crew.findsNothing ∧ p.result = .ok report ∧
      report.outcomes.map Outcome.status = [.dumped, .dumped] := by
  have hrun : ((smallBatch.run [smallInvocation]).runIn Crew.findsNothing .fresh).1.map
      (fun r => r.outcomes.map Outcome.status) = .ok [.dumped, .dumped] := by
    decide +kernel
  have hworkers : 0 < smallBatch.settings.workers := by decide
  exact exists_reaches_report hworkers rfl made_smallBatch hrun

/-- The two sources of a small batch go their ways. -/
theorem lawful_smallBatch :
    ∃ p report, World.fresh.files.IsTree ∧
      (∀ t ∈ smallBatch.tasks smallDirectory [smallInvocation],
        ∀ u ∈ smallBatch.tasks smallDirectory [smallInvocation], t.artifact.Apart u.artifact) ∧
      Pool.Reaches smallBatch (smallBatch.pool smallDirectory [smallInvocation] .fresh) p ∧
      p.IsOver ∧ p.result = .ok report ∧ report.outcomes.map Outcome.status = [.dumped, .dumped] ∧
      Lawful smallBatch smallDirectory [smallInvocation]
        (smallBatch.pool smallDirectory [smallInvocation] .fresh) p report := by
  obtain ⟨p, report, hreach, hover, -, hreport, hstatus⟩ := exists_report_smallBatch
  exact ⟨p, report, .fresh, apart_smallBatch, hreach, hover, hreport, hstatus,
    lawful_of_result .fresh apart_smallBatch hreach hover hreport⟩

end Batch

end DeclGraph
