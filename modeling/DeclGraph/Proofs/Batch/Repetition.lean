import DeclGraph.Proofs.Batch.Aftermath

/-!
# Running a batch once more

A batch that ended without failures has nothing left to do: when it is run once more, every file is
skipped, nothing is parsed and no file changes (`Batch.idle_of_result`).

A file may have been skipped since its artifact was there, since its lock was there before the batch
or since another worker held the lock.  What becomes of these reasons while the others go on is
`Crew.Settled`: the worker with the lock makes the artifact, finds it there, or comes to a failure.
-/

namespace DeclGraph

open FileSystem

/-! ### Why files are skipped -/

/-- The ending is no failure. -/
def Ending.IsGood : Ending → Prop
  | .ok o => o.status.isFailure = false
  | .error _ => False

namespace Crew

variable {start : FileSystem} {c c' : Crew} {i k : Nat} {u u' v : Worker} {artifact : Path}
  {p : Place}

/-- Why an artifact may be left to others. -/
inductive Settled (start : FileSystem) (c : Crew) (artifact : Path) : Prop
  /-- It is there. -/
  | made {p : Place} (place : start.place? artifact = some p) (there : c.files.get? p ≠ none)
  /-- Its lock was there at the start. -/
  | foreign {p : Place} (named : artifact.name ≠ "")
    (place : start.place? (lockPath artifact) = some p) (was : start.get? p ≠ none)
  /-- A worker holds its lock. -/
  | held {j : Nat} {u : Worker} {p : Place} (named : artifact.name ≠ "")
    (place : start.place? (lockPath artifact) = some p) (worker : c.workers[j]? = some u)
    (holds : u.phase.Holds) (same : start.place? (lockPath u.artifact) = some p)
  /-- A worker has come to a failure. -/
  | failed {j : Nat} {u : Worker} {ending : Ending} (worker : c.workers[j]? = some u)
    (phase : u.phase = .finished ending) (bad : ¬ ending.IsGood)

variable (htree : start.IsTree) (hs : Sound start c)
  (hreports : ∀ u ∈ c.workers, u.Reports start c.files) (hlawful : ∀ u ∈ c.workers, u.Lawful)

namespace Sound

include hs in
/-- A lock that was there at the start stays there. -/
theorem there_of_foreign (hplace : start.place? (lockPath artifact) = some p)
    (hwas : start.get? p ≠ none) : c.files.get? p ≠ none := by
  obtain ⟨d, rfl⟩ := exists_concat_of_place? (by decide) hplace
  rcases hs.frame (d ++ [artifact.name ++ ".lock"]) with heq | ⟨j, u, hj, htouches⟩
  · rwa [heq]
  · -- locks are taken, and artifacts dumped, only where nothing was at the start
    cases htouches with
    | lock holds place =>
      obtain ⟨q, hclaims⟩ := (hs.worker j u hj).claims holds
      rw [← Option.some.inj (place.symm.trans hclaims.place)] at hclaims
      exact absurd hclaims.new hwas
    | temp busy place =>
      obtain ⟨d', hd'⟩ := exists_concat_of_place? (by decide) place
      exact absurd hd' (lock_ne_temp d d' _ _)
    | artifact dumped place =>
      obtain ⟨-, d', text, hseats, hnew, -, -⟩ := (hs.worker j u hj).completes dumped
      rw [← Option.some.inj (place.symm.trans hseats.file)] at hnew
      exact absurd hnew hwas
    | stale settled dumping place =>
      obtain ⟨d', hd'⟩ := exists_concat_of_place? (by decide) place
      exact absurd hd' (lock_ne_temp d d' _ _)

include hs in
/-- A lock that is there was there at the start, or a worker holds it. -/
theorem settled_of_lock (hi : c.workers[i]? = some v) (hnamed : v.artifact.name ≠ "")
    (hthere : c.files.at? (lockPath v.artifact) ≠ none) : Settled start c v.artifact := by
  obtain ⟨p, hplace, hthere⟩ := exists_of_at?_ne_none hthere
  rw [hs.same.place?_eq] at hplace
  obtain ⟨d, hd⟩ := exists_concat_of_place? (by decide) hplace
  rcases hs.frame p with heq | ⟨j, u, hj, htouches⟩
  · exact .foreign hnamed hplace (by rwa [← heq])
  · cases htouches with
    | lock holds place => exact .held hnamed hplace hj holds place
    | temp busy place =>
      obtain ⟨d', hd'⟩ := exists_concat_of_place? (by decide) place
      exact absurd (hd.symm.trans hd') (lock_ne_temp d d' _ _)
    | artifact dumped place =>
      obtain ⟨d', hd'⟩ := (hs.worker j u hj).exists_concat (.inr dumped) place
      exact absurd (concat_inj (hd'.symm.trans hd)).2 (hs.apart j i u v hj hi).lock
    | stale settled dumping place was gone => exact absurd gone hthere

include htree hs hreports hlawful in
/-- Where a worker gives its lock back its artifact is there, or it comes to a failure. -/
theorem settled_of_unlocked {frontEnd : FrontEnd} {w' : World} (hi : c.workers[i]? = some u)
    (hstep : u.step frontEnd c.world = some (u', w')) (hholds : u.phase.Holds)
    (hfree : ¬ u'.phase.Holds) (hplace : start.place? u.artifact = some p)
    (hplace' : start.place? artifact = some p) :
    Settled start ⟨w', c.workers.set i u'⟩ artifact := by
  have heffect := hs.effect htree hi hstep
  have hmem := List.mem_of_getElem? hi
  have hself : (c.workers.set i u')[i]? = some u' :=
    (getElem?_set_eq_some_iff hi).2 (.inl ⟨rfl, rfl⟩)
  have hleads := Worker.leads_of_step hstep
  cases hphase' : u'.phase with
  | finished ending =>
    by_cases hgood : ending.IsGood
    · rw [hphase'] at hleads
      cases hleads with
      | goesOn undecided => exact absurd undecided (by simp [Phase.ending?])
      | found phase | claimed phase =>
        rw [phase] at hholds
        exact absurd hholds id
      | yielded phase =>
        -- the artifact had come up in the meantime
        have hreport := hreports u hmem
        rw [Worker.Reports, phase] at hreport
        obtain ⟨q, hq, hthere⟩ := hreport
        obtain rfl := Option.some.inj (hplace.symm.trans hq)
        refine .made hplace' ?_
        exact hs.there_of_stepOf htree ⟨frontEnd, u, u', w', hi, hstep, rfl⟩ hi hplace hthere
      | released phase =>
        have hlaw := hlawful u hmem
        rw [Worker.Lawful, phase] at hlaw
        cases ending with
        | error e => exact absurd hgood id
        | ok o =>
          -- an outcome that is no failure, and not skipped, is dumped
          have hgood : o.status.isFailure = false := hgood
          have hdumped : u'.phase.Dumped := by
            refine ⟨.ok o, by rw [hphase']; rfl, ?_⟩
            show o.status = .dumped
            cases hstatus : o.status with
            | dumped => rfl
            | skipped => exact absurd hstatus (hlaw o rfl).2
            | parseFailed | timedOut | failed =>
              rw [hstatus] at hgood
              exact absurd hgood (by decide)
          obtain ⟨-, d, text, hseats, -, -, hthere⟩ := heffect.sound.completes hdumped
          rw [heffect.artifact_eq] at hseats hthere
          obtain rfl := Option.some.inj (hplace.symm.trans hseats.file)
          refine .made hplace' ?_
          show w'.files.get? _ ≠ none
          rw [hthere]
          simp
      | raised e => exact absurd hgood id
    · exact .failed hself hphase' hgood
  | looking | claiming =>
    rw [hphase'] at hleads
    cases hleads with
    | goesOn _ _ holds => exact absurd (holds hholds) id
  | rechecking | yielding | parsing | opening | writing | replacing | discarding | releasing =>
    rw [hphase'] at hfree
    exact absurd trivial hfree

end Sound

include htree hs hreports hlawful in
/-- What is left to others stays so. -/
theorem Settled.stepOf (h : StepOf i c c') (hk : c.workers[k]? = some v)
    (hsettled : Settled start c v.artifact) : Settled start c' v.artifact := by
  cases hsettled with
  | made place there => exact .made place (hs.there_of_stepOf htree h hk place there)
  | foreign named place was => exact .foreign named place was
  | @held j u p named place worker holds same =>
    obtain ⟨frontEnd, u', u'', w', hi, hstep, rfl⟩ := h
    -- only the step of the worker that holds the lock can matter
    by_cases hji : j = i
    · subst hji
      obtain rfl := Option.some.inj (worker.symm.trans hi)
      by_cases hholds : u''.phase.Holds
      · refine .held named place ((getElem?_set_eq_some_iff hi).2 (.inl ⟨rfl, rfl⟩)) hholds ?_
        rwa [(hs.effect htree hi hstep).artifact_eq]
      · obtain ⟨q, hclaims⟩ := (hs.worker j u hi).claims holds
        obtain ⟨r, hr, hr'⟩ := place?_eq_of_lock named hclaims.named place same
        exact hs.settled_of_unlocked htree hreports hlawful hi hstep holds hholds hr' hr
    · exact .held named place ((getElem?_set_eq_some_iff hi).2 (.inr ⟨hji, worker⟩)) holds same
  | @failed j u ending worker phase bad =>
    obtain ⟨frontEnd, u', u'', w', hi, hstep, rfl⟩ := h
    by_cases hji : j = i
    · -- who has come to its end takes no step
      subst hji
      obtain rfl := Option.some.inj (worker.symm.trans hi)
      rw [Worker.step_eq_none phase] at hstep
      exact absurd hstep (by simp)
    · exact .failed ((getElem?_set_eq_some_iff hi).2 (.inr ⟨hji, worker⟩)) phase bad

/-- Who has skipped its file left it to others. -/
theorem settled_of_reaches {begin : Crew} (htree : begin.files.IsTree) (hnew : begin.IsNew)
    (hs : Sound begin.files begin) (h : Reaches begin c) :
    ∀ (k : Nat) (v : Worker) (o : Outcome), c.workers[k]? = some v →
      v.phase = .finished (.ok o) → o.status = .skipped → Settled begin.files c v.artifact := by
  induction h with
  | refl =>
    intro k v o hk hphase
    rw [hnew v (List.mem_of_getElem? hk)] at hphase
    exact absurd hphase (by simp)
  | @tail c c' hreach hstep ih =>
    obtain ⟨i, hstep⟩ := hstep
    have hs' := hs.reaches htree hreach
    have hreports := hs.reports_of_reaches htree hnew hreach
    have hlawful := lawful_of_reaches hnew hreach
    have hstays {k : Nat} {u : Worker} := Settled.stepOf (k := k) (v := u) htree hs' hreports
      hlawful hstep
    intro k u o hk hphase hstatus
    have hstepOf := hstep
    obtain ⟨frontEnd, v, v', w', hi, hact, rfl⟩ := hstep
    rcases (getElem?_set_eq_some_iff hi).1 hk with ⟨-, rfl⟩ | ⟨-, hk⟩
    · -- the worker has just skipped its file: the reason held before its step and stays
      have heffect := hs'.effect htree hi hact
      have hleads := Worker.leads_of_step hact
      rw [hphase] at hleads
      rw [heffect.artifact_eq]
      refine hstays hi ?_
      cases hleads with
      | goesOn undecided => exact absurd undecided (by simp [Phase.ending?])
      | found _ _ there =>
        obtain ⟨p, hplace, hthere⟩ := exists_of_at?_ne_none there
        exact .made ((hs'.same.place?_eq _).symm.trans hplace) hthere
      | claimed phase _ there =>
        have hsound := hs'.worker i v hi
        rw [Worker.Sound, phase] at hsound
        exact hs'.settled_of_lock hi hsound there
      | yielded phase =>
        have hreport := hreports v (List.mem_of_getElem? hi)
        rw [Worker.Reports, phase] at hreport
        obtain ⟨p, hplace, hthere⟩ := hreport
        exact .made hplace hthere
      | released phase =>
        have hlaw := hlawful v (List.mem_of_getElem? hi)
        rw [Worker.Lawful, phase] at hlaw
        exact absurd hstatus (hlaw o rfl).2
    · exact hstays hk (ih k u o hk hphase hstatus)

end Crew

/-! ### When there is nothing to do -/

/-- There is nothing to do for an artifact: it is there, or its lock is. -/
inductive FileSystem.Spares (fs : FileSystem) (artifact : Path) : Prop
  /-- It is there. -/
  | made (there : fs.at? artifact ≠ none)
  /-- Its lock is there. -/
  | locked (named : artifact.name ≠ "") (there : fs.at? (lockPath artifact) ≠ none)

namespace FileSystem

variable {fs : FileSystem} {artifact : Path}

/-- Whoever looks for such an artifact finds it, or finds its lock. -/
theorem Spares.exists_or (h : fs.Spares artifact) : fs.exists artifact = .ok true ∨
    fs.exists artifact = .ok false ∧ artifact.name ≠ "" ∧ fs.at? (lockPath artifact) ≠ none := by
  cases h with
  | made there => exact .inl (exists_of_at? there)
  | locked named there =>
    obtain ⟨p, hlock, -⟩ := exists_of_at?_ne_none there
    -- the lock has a place, so the artifact has one
    obtain ⟨q, hplace, -⟩ := place?_eq_of_lock named named hlock hlock
    rw [exists_eq_of_place? hplace]
    cases hentry : (fs.get? q).isSome with
    | true => exact .inl rfl
    | false => exact .inr ⟨rfl, named, there⟩

end FileSystem

namespace Batch

variable {b : Batch} {directory : Path} {invs : List Invocation} {w : World} {p : Pool}

theorem exists_worker_of_task (hreach : Pool.Reaches b (b.pool directory invs w) p) {t : Task}
    (ht : t ∈ b.tasks directory invs) :
    ∃ (i : Nat) (v : Worker), (p.crew b).workers[i]? = some v ∧ v.task = t := by
  obtain ⟨i, hi⟩ := List.mem_iff_getElem?.1 ht
  obtain ⟨job, hjob, -, htask⟩ := exists_job_of_task hreach hi
  exact ⟨i, job.worker b, Pool.getElem?_crew b hjob, htask⟩

/-- In a batch without failures every worker has dumped or skipped its file. -/
theorem finished_of_result (hreach : Pool.Reaches b (b.pool directory invs w) p)
    (hover : p.IsOver) {report : BatchReport} (hreport : p.result = .ok report)
    (hgood : report.hasFailures = false) {i : Nat} {v : Worker}
    (hi : (p.crew b).workers[i]? = some v) :
    ∃ o, v.phase = .finished (.ok o) ∧ (o.status = .dumped ∨ o.status = .skipped) := by
  simp only [Pool.crew, List.getElem?_map] at hi
  obtain ⟨job, hjob, rfl⟩ := Option.map_eq_some_iff.1 hi
  obtain ⟨v, o, rfl, hphase, ho⟩ := Pool.exists_worker_of_result hreach
    (not_cancelled_mem_pool b directory invs w) hover hreport hjob
  refine ⟨o, hphase, ?_⟩
  rw [BatchReport.hasFailures, List.any_eq_false] at hgood
  have hstatus := hgood o (List.mem_of_getElem? ho)
  cases hcase : o.status with
  | dumped => exact .inl rfl
  | skipped => exact .inr rfl
  | parseFailed | timedOut | failed =>
    rw [hcase] at hstatus
    exact absurd rfl hstatus

/-- A batch without failures leaves nothing to do. -/
theorem spares_of_result (htree : w.files.IsTree)
    (hapart : ∀ t ∈ b.tasks directory invs, ∀ u ∈ b.tasks directory invs,
      t.artifact.Apart u.artifact)
    (hreach : Pool.Reaches b (b.pool directory invs w) p) (hover : p.IsOver) {report : BatchReport}
    (hreport : p.result = .ok report) (hgood : report.hasFailures = false) :
    ∀ t ∈ b.tasks directory invs, p.files.Spares t.artifact := by
  have htree' := (makeDirectories_grows w.files directory true).isTree htree
  have hs := sound_of_reaches htree hapart hreach
  have hbegin := sound_of_reaches (p := b.pool directory invs w) htree hapart .refl
  have hfinished {i : Nat} {v : Worker} (hi : (p.crew b).workers[i]? = some v) :=
    finished_of_result hreach hover hreport hgood hi
  intro t ht
  obtain ⟨i, v, hi, rfl⟩ := exists_worker_of_task hreach ht
  obtain ⟨o, hphase, hstatus⟩ := hfinished hi
  have hmade {q : Place} (hplace : (b.pool directory invs w).files.place? v.artifact = some q)
      (hthere : (p.crew b).files.get? q ≠ none) : p.files.Spares v.artifact := by
    refine .made ?_
    show (p.crew b).files.at? v.artifact ≠ none
    rwa [at?_of_place? ((hs.same.place?_eq _).trans hplace)]
  rcases hstatus with hdumped | hskipped
  · have hdumped' : v.phase.Dumped := hphase ▸ Phase.dumped_finished_iff.2 hdumped
    obtain ⟨-, d, text, hseats, -, -, hthere⟩ := (hs.worker i v hi).completes hdumped'
    exact hmade hseats.file (by rw [hthere]; simp)
  · have hsettled := Crew.settled_of_reaches htree' (isNew_pool b directory invs w) hbegin
      (Pool.crew_reaches hreach) i v o hi hphase hskipped
    cases hsettled with
    | made place there => exact hmade place there
    | foreign named place was =>
      refine .locked named ?_
      show (p.crew b).files.at? (lockPath v.artifact) ≠ none
      rw [at?_of_place? ((hs.same.place?_eq _).trans place)]
      exact hs.there_of_foreign place was
    | held _ _ worker holds =>
      -- every worker has given its lock back
      obtain ⟨o', hphase', -⟩ := hfinished worker
      rw [hphase'] at holds
      exact absurd holds id
    | failed worker phase bad =>
      obtain ⟨o', hphase', hstatus'⟩ := hfinished worker
      rw [phase] at hphase'
      obtain rfl := Phase.finished.inj hphase'
      refine absurd ?_ bad
      show o'.status.isFailure = false
      rcases hstatus' with h | h
      · rw [h]; rfl
      · rw [h]; rfl

end Batch

/-! ### The second time -/

theorem World.calls_change (w : World) (result : Except FileError FileSystem) :
    (w.change result).2.calls = w.calls := by
  cases result <;> rfl

/-- Only a worker that parses calls the parser. -/
theorem Worker.calls_of_step {v v' : Worker} {frontEnd : FrontEnd} {w w' : World}
    (hphase : v.phase ≠ .parsing) (h : v.step frontEnd w = some (v', w')) :
    w'.calls = w.calls := by
  obtain ⟨b, t, phase, attempt?⟩ := v
  cases phase with
  | parsing => exact absurd rfl hphase
  | finished ending => exact absurd h (by simp [Worker.step, Phase.next])
  | looking | rechecking =>
    obtain ⟨-, rfl⟩ := Prod.mk.inj (Option.some.inj h)
    rfl
  | claiming | yielding | opening | writing | replacing | discarding | releasing =>
    obtain ⟨-, rfl⟩ := Prod.mk.inj (Option.some.inj h)
    exact World.calls_change ..

/-- A job for which there is nothing to do. -/
inductive Job.Idles (b : Batch) (fs : FileSystem) (t : Task) : Job → Prop
  | waiting : Idles b fs t (.waiting t)
  | looking : Idles b fs t (.taken (.start b t))
  | claiming (there : fs.at? (lockPath t.artifact) ≠ none) :
    Idles b fs t (.taken ⟨b, t, .claiming, none⟩)
  | skipped : Idles b fs t (.taken ⟨b, t, .finished (.ok t.skipped), none⟩)

namespace Job

variable {b : Batch} {fs : FileSystem} {t : Task} {job : Job}

/-- An idle job skips its file, if it comes to an end. -/
theorem Idles.ending?_eq (h : Idles b fs t job) {ending : Ending}
    (hending : job.ending? = some ending) : ending = .ok t.skipped := by
  cases h with
  | waiting | looking | claiming => exact absurd hending (by simp [ending?, Worker.start])
  | skipped => exact (Option.some.inj hending).symm

theorem Idles.ending?_of_isOver (h : Idles b fs t job) (hover : job.IsOver) :
    job.ending? = some (.ok t.skipped) := by
  cases h with
  | waiting => exact absurd hover id
  | looking | claiming => exact absurd rfl hover
  | skipped => rfl

theorem Idles.step {v v' : Worker} {frontEnd : FrontEnd} {w w' : World}
    (h : Idles b w.files t (.taken v)) (hspares : w.files.Spares t.artifact)
    (hstep : v.step frontEnd w = some (v', w')) :
    Idles b w.files t (.taken v') ∧ w'.files = w.files ∧ w'.calls = w.calls := by
  cases h with
  | looking =>
    have hcalls := Worker.calls_of_step (by simp [Worker.start]) hstep
    obtain ⟨hfiles, rfl⟩ := Worker.step_of_exists rfl hstep
    refine ⟨?_, hfiles, hcalls⟩
    rcases hspares.exists_or with hexists | ⟨hexists, hnamed, hthere⟩
    · rw [show (Worker.start b t).task = t from rfl, hexists]
      exact .skipped
    · rw [show (Worker.start b t).task = t from rfl, hexists]
      dsimp only
      rw [if_neg fun hempty => hnamed (String.isEmpty_iff.1 hempty)]
      exact .claiming hthere
  | claiming there =>
    -- the lock is there, so it cannot be taken
    have hcalls := Worker.calls_of_step (by simp) hstep
    have hrefused := createExclusive_of_at? there
    rcases Worker.step_of_change rfl rfl (fun _ => rfl) hstep with
      ⟨fs', hok, -, -⟩ | ⟨e, he, hfiles, rfl⟩
    · exact absurd (hok.symm.trans hrefused) (by simp)
    · obtain rfl := Except.error.inj (he.symm.trans hrefused)
      exact ⟨.skipped, hfiles, hcalls⟩
  | skipped => exact absurd hstep (by simp [Worker.step, Phase.next])

end Job

/-- A pool in which there is nothing to do for the tasks. -/
structure Pool.IsIdle (b : Batch) (tasks : List Task) (w : World) (p : Pool) : Prop where
  /-- No file has changed. -/
  files : p.files = w.files
  /-- Nothing was parsed. -/
  calls : p.world.calls = w.calls
  /-- Each task has its job. -/
  length : p.jobs.length = tasks.length
  /-- There is nothing to do for it. -/
  idles : ∀ (i : Nat) (t : Task) (job : Job), tasks[i]? = some t → p.jobs[i]? = some job →
    job.Idles b w.files t

namespace Pool

variable {b : Batch} {tasks : List Task} {w : World} {p p' : Pool}

theorem IsIdle.exists_task (h : p.IsIdle b tasks w) {i : Nat} {job : Job}
    (hi : p.jobs[i]? = some job) : ∃ t, tasks[i]? = some t ∧ job.Idles b w.files t := by
  have hlt : i < tasks.length := by
    rw [← h.length]
    exact (List.getElem?_eq_some_iff.1 hi).1
  have ht := List.getElem?_eq_getElem hlt
  exact ⟨_, ht, h.idles i _ job ht hi⟩

theorem IsIdle.step (hspares : ∀ t ∈ tasks, w.files.Spares t.artifact)
    (h : p.IsIdle b tasks w) (hstep : Step b p p') : p'.IsIdle b tasks w := by
  obtain ⟨i, job, job', hi, hjobs, hmoves⟩ := exists_moves_of_step hstep
  obtain ⟨t, ht, hidles⟩ := h.exists_task hi
  have hset (hnew : job'.Idles b w.files t) (j : Nat) (t' : Task) (job'' : Job)
      (ht' : tasks[j]? = some t') (hj : p'.jobs[j]? = some job'') : job''.Idles b w.files t' := by
    by_cases hji : i = j
    · subst hji
      rw [hjobs, List.getElem?_set_self (List.getElem?_eq_some_iff.1 hi).1] at hj
      rw [← Option.some.inj hj, ← Option.some.inj (ht.symm.trans ht')]
      exact hnew
    · rw [hjobs, List.getElem?_set_ne hji] at hj
      exact h.idles j t' job'' ht' hj
  have hlength := (length_jobs_of_step hstep).trans h.length
  cases hmoves with
  | take same =>
    refine ⟨?_, ?_, hlength, hset ?_⟩
    · exact (congrArg World.files same).trans h.files
    · exact (congrArg World.calls same).trans h.calls
    · cases hidles with
      | waiting => exact .looking
  | act hact =>
    have hspare := hspares t (List.mem_of_getElem? ht)
    rw [← h.files] at hidles hspare
    obtain ⟨hidles', hfiles, hcalls⟩ := hidles.step hspare hact
    refine ⟨hfiles.trans h.files, hcalls.trans h.calls, hlength, hset ?_⟩
    rw [← h.files]
    exact hidles'
  | cancel same stops =>
    -- no idle job fails
    obtain ⟨j, failed, e, hj, hended, -⟩ := stops_iff.1 stops
    obtain ⟨t', -, hidles'⟩ := h.exists_task hj
    exact absurd (hidles'.ending?_eq hended) (by simp)

theorem IsIdle.reaches (hspares : ∀ t ∈ tasks, w.files.Spares t.artifact)
    (h : p.IsIdle b tasks w) (hreach : Reaches b p p') : p'.IsIdle b tasks w := by
  induction hreach with
  | refl => exact h
  | tail _ hstep ih => exact ih.step hspares hstep

/-- Where there was nothing to do every file is skipped. -/
theorem IsIdle.result_eq (h : p.IsIdle b tasks w) (hover : p.IsOver) :
    p.result = .ok ⟨tasks.map Task.skipped⟩ := by
  -- job by job, the endings are those of tasks with nothing to do
  have hended : p.jobs.map Job.ending? = (tasks.map fun t => .ok t.skipped).map some := by
    refine List.ext_getElem? fun i => ?_
    rw [List.getElem?_map, List.getElem?_map, List.getElem?_map]
    cases hi : p.jobs[i]? with
    | none =>
      rw [List.getElem?_eq_none_iff, h.length, ← List.getElem?_eq_none_iff] at hi
      rw [hi]
      rfl
    | some job =>
      obtain ⟨t, ht, hidles⟩ := h.exists_task hi
      rw [ht, Option.map_some, Option.map_some, Option.map_some,
        hidles.ending?_of_isOver (hover job (List.mem_of_getElem? hi))]
  have hall : ∀ job ∈ p.jobs, job.ending? ≠ none := by
    intro job hjob
    obtain ⟨i, hi⟩ := List.mem_iff_getElem?.1 hjob
    obtain ⟨t, -, hidles⟩ := h.exists_task hi
    rw [hidles.ending?_of_isOver (hover job hjob)]
    simp
  have hendings : p.jobs.filterMap Job.ending? = tasks.map fun t => .ok t.skipped :=
    List.map_injective_iff.2 (Option.some_injective _)
      ((Job.map_ending?_of_forall hall).symm.trans hended)
  rw [result, Batch.collect_eq_ok_iff, hendings, List.map_map]
  rfl

end Pool

/-! ### Batches that are run once more -/

namespace Batch

variable {b : Batch} {directory : Path} {invs : List Invocation} {w w' : World} {p : Pool}

/-- There is nothing to do for a batch. -/
structure Idle (b : Batch) (directory : Path) (invs : List Invocation) (w : World) : Prop where
  /-- The output directory is there. -/
  made : w.files.makeDirectories directory true = (w.files, .ok ())
  /-- The batch comes to its end. -/
  terminates : Pool.Terminates b (b.pool directory invs w)
  /-- No file ever changes. -/
  files : ∀ p, Pool.Reaches b (b.pool directory invs w) p → p.files = w.files
  /-- Nothing is ever parsed. -/
  calls : ∀ p, Pool.Reaches b (b.pool directory invs w) p → p.world.calls = w.calls
  /-- Every file is skipped. -/
  result : ∀ p, Pool.Reaches b (b.pool directory invs w) p → p.IsOver →
    p.result = .ok ⟨(b.tasks directory invs).map Task.skipped⟩

/-- **Running a batch once more does nothing.**  From files that form a tree, with the output
directory made, however any number of workers take their steps and whatever the parser answers: if
the batch has a report without failures, then, run once more on the files that it left, it comes to
its end, skips every file, parses nothing and changes no file, whatever parser it is given. -/
theorem idle_of_result (hworkers : 0 < b.settings.workers) (htree : w.files.IsTree)
    (hapart : ∀ t ∈ b.tasks directory invs, ∀ u ∈ b.tasks directory invs,
      t.artifact.Apart u.artifact)
    (hmake : (w.files.makeDirectories directory true).2 = .ok ())
    (hreach : Pool.Reaches b (b.pool directory invs w) p) (hover : p.IsOver) {report : BatchReport}
    (hreport : p.result = .ok report) (hgood : report.hasFailures = false)
    (hfiles : w'.files = p.files) : Idle b directory invs w' := by
  have hs := sound_of_reaches htree hapart hreach
  have hspares := spares_of_result htree hapart hreach hover hreport hgood
  rw [← hfiles] at hspares
  -- the output directory is still there, so making it changes nothing
  have hdirectory : w'.files.makeDirectories directory true = (w'.files, .ok ()) := by
    refine makeDirectories_of_at? ?_
    rw [hfiles]
    exact hs.same.at?_directory (at?_of_makeDirectories hmake)
  have hidle : (b.pool directory invs w').IsIdle b (b.tasks directory invs) w' := by
    refine ⟨congrArg Prod.fst hdirectory, rfl, List.length_map .., ?_⟩
    intro i t job ht hjob
    rw [pool, List.getElem?_map, ht] at hjob
    rw [← Option.some.inj hjob]
    exact .waiting
  exact {
    made := hdirectory
    terminates := Pool.terminates hworkers _
    files := fun p h => (hidle.reaches hspares h).files
    calls := fun p h => (hidle.reaches hspares h).calls
    result := fun p h hover => (hidle.reaches hspares h).result_eq hover }

/-- A small batch that has dumped its sources does nothing when it is run once more. -/
theorem idle_smallBatch :
    ∃ p report, 0 < smallBatch.settings.workers ∧ World.fresh.files.IsTree ∧
      (∀ t ∈ smallBatch.tasks smallDirectory [smallInvocation],
        ∀ u ∈ smallBatch.tasks smallDirectory [smallInvocation], t.artifact.Apart u.artifact) ∧
      (World.fresh.files.makeDirectories smallDirectory true).2 = .ok () ∧
      Pool.Reaches smallBatch (smallBatch.pool smallDirectory [smallInvocation] .fresh) p ∧
      p.IsOver ∧ p.result = .ok report ∧ report.hasFailures = false ∧
      (World.ofFiles p.files).files = p.files ∧
      Idle smallBatch smallDirectory [smallInvocation] (.ofFiles p.files) := by
  obtain ⟨p, report, hreach, hover, -, hreport, hstatus⟩ := exists_report_smallBatch
  have hgood : report.hasFailures = false := by
    have hany : report.hasFailures = (report.outcomes.map Outcome.status).any Status.isFailure := by
      rw [List.any_map]
      rfl
    rw [hany, hstatus]
    rfl
  exact ⟨p, report, by decide, .fresh, apart_smallBatch, made_smallBatch, hreach, hover, hreport,
    hgood, rfl, idle_of_result (b := smallBatch) (by decide) .fresh apart_smallBatch
      made_smallBatch hreach hover hreport hgood rfl⟩

end Batch

end DeclGraph
