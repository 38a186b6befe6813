import DeclGraph.Proofs.Batch.Artifact
import DeclGraph.Proofs.Batch.Scope
import DeclGraph.Proofs.Batch.Sequence

/-!
# Tasks with one artifact

Inputs that are called alike have one artifact.  With one worker the first of their tasks that
succeeds makes it: those before it fail and leave neither the artifact nor its lock behind, and
those behind it find the artifact and are skipped without a parse.

A task is only skipped after another one that dumped the artifact
(`Batch.exists_dumped_of_skipped`), and behind that one no task parses
(`Batch.attempt?_of_dumped`).  So the outcomes of the tasks, in order, are those of
`Pool.FirstWins` (`Batch.collides_of_result`).  `Batch.run_overLock` is why the lock has to be
looked for when the output directory has been made: making it can put a directory where the lock
belongs.
-/

namespace DeclGraph

open FileSystem

/-! ### Whose artifact leads somewhere -/

/-- A task only gets an outcome if its artifact leads somewhere. -/
theorem Worker.IsScoped.exists_place {start : FileSystem} {v v' : Worker} {frontEnd : FrontEnd}
    {w w' : World} {o : Outcome} (h : v.IsScoped start) (hsame : SameDirectories start w.files)
    (hstep : v.step frontEnd w = some (v', w')) (hphase : v'.phase = .finished (.ok o)) :
    ∃ q, start.place? v.artifact = some q := by
  have hlocked (hlockable : start.Lockable v.artifact) :
      ∃ q, start.place? v.artifact = some q := by
    obtain ⟨hnamed, p, hp, -⟩ := hlockable
    obtain ⟨q, hq, -⟩ := place?_eq_of_lock hnamed hnamed hp hp
    exact ⟨q, hq⟩
  have hleads := Worker.leads_of_step hstep
  rw [hphase] at hleads
  -- every way to an outcome goes through an artifact or a lock that stands in a directory
  cases hleads with
  | goesOn undecided => exact absurd undecided (by simp [Phase.ending?])
  | found _ _ there =>
    obtain ⟨q, hq, -⟩ := exists_of_at?_ne_none there
    exact ⟨q, (hsame.place?_eq _).symm.trans hq⟩
  | claimed phase _ there =>
    have hnamed : v.artifact.name ≠ "" := by rwa [IsScoped, phase] at h
    obtain ⟨p, hp, -⟩ := exists_of_at?_ne_none there
    rw [hsame.place?_eq] at hp
    obtain ⟨q, hq, -⟩ := place?_eq_of_lock hnamed hnamed hp hp
    exact ⟨q, hq⟩
  | yielded phase => exact hlocked (h.lockable (by rw [phase]; trivial))
  | released phase => exact hlocked (h.lockable (by rw [phase]; trivial))

theorem Batch.exists_place_of_finished {b : Batch} {directory : Path} {invs : List Invocation}
    {w : World} {p : Pool} {v : Worker} {o : Outcome} {i : Nat}
    (hreach : Pool.Reaches b (b.pool directory invs w) p) (hi : p.jobs[i]? = some (.taken v))
    (hphase : v.phase = .finished (.ok o)) :
    ∃ q, (b.pool directory invs w).files.place? v.artifact = some q := by
  have hnew : (b.pool directory invs w).jobs[i]? ≠ some (.taken v) := fun h =>
    not_taken_mem_pool b directory invs w v (List.mem_of_getElem? h)
  obtain ⟨x, x', hx, hstep, -, hbefore, hafter⟩ := Pool.exists_moment hreach hnew hi
  obtain ⟨job, hjob, heq | hmoves⟩ := Pool.exists_job_before_step hstep hafter
  · exact absurd (heq ▸ hjob) hbefore
  · cases hmoves with
    | take => exact absurd hphase (by simp [Worker.start])
    | @act u v frontEnd hact =>
      obtain ⟨hsame, hscoped⟩ := isScoped_of_reaches hx
      have hu : u.IsScoped (b.pool directory invs w).files :=
        hscoped _ (List.mem_of_getElem? hjob)
      rw [Worker.artifact, (Worker.task_of_step hact).2]
      exact hu.exists_place hsame hact hphase

/-! ### Who is skipped -/

namespace Pool

variable {b : Batch} {p : Pool} {start : FileSystem} {v : Worker} {o : Outcome} {q : Place}

/-- What has come up by a time when nobody is at work was dumped. -/
theorem exists_dumped_of_idle (hs : Crew.Sound start (p.crew b))
    (hidle : ∀ job ∈ p.jobs, job.isBusy = false) (hnone : start.get? q = none)
    (hthere : p.files.get? q ≠ none) :
    ∃ u, .taken u ∈ p.jobs ∧ u.phase.Dumped ∧ start.place? u.artifact = some q := by
  rcases changes_of_idle hs hidle q with heq | ⟨u, hu, ⟨hdumped, hplace⟩ | ⟨-, -, -, hgone⟩⟩
  · exact absurd (heq.trans hnone) hthere
  · exact ⟨u, hu, hdumped, hplace⟩
  · exact absurd hgone hthere

/-- A file is skipped since its artifact was dumped, if neither that nor its lock was there at the
start and nobody else is at work. -/
theorem exists_dumped_of_leaves (hs : Crew.Sound start (p.crew b))
    (hidle : ∀ job ∈ p.jobs, job.isBusy = false) (hv : .taken v ∈ p.jobs)
    (hleaves : v.Leaves o p.files) (hskipped : o.status = .skipped)
    (hq : start.place? v.artifact = some q)
    (habsent : start.get? q = none) (hfree : start.at? (lockPath v.artifact) = none) :
    ∃ u, .taken u ∈ p.jobs ∧ u.phase.Dumped ∧ start.place? u.artifact = some q := by
  have hsame : SameDirectories start p.files := hs.same
  rcases hleaves.skipped hskipped with hartifact | hlock
  · refine exists_dumped_of_idle hs hidle habsent ?_
    rwa [at?_of_place? ((hsame.place?_eq _).trans hq)] at hartifact
  · -- no artifact is called like a lock
    obtain ⟨r, hr, hthere⟩ := exists_of_at?_ne_none hlock
    rw [hsame.place?_eq] at hr
    rw [at?_of_place? hr] at hfree
    obtain ⟨u, hu, hdumped, hplace⟩ := exists_dumped_of_idle hs hidle hfree hthere
    obtain ⟨i, hi⟩ := exists_getElem? (b := b) hu
    obtain ⟨j, hj⟩ := exists_getElem? (b := b) hv
    obtain ⟨-, d, text, hseats, -, -, -⟩ := (hs.worker i u hi).completes hdumped
    obtain rfl := Option.some.inj (hplace.symm.trans hseats.file)
    obtain ⟨d', heq⟩ := exists_concat_of_place? (by decide) hr
    exact absurd (concat_inj heq).2 (hs.apart i j u v hi hj).lock

end Pool

namespace Batch

variable {b : Batch} {directory : Path} {invs : List Invocation} {w : World} {p : Pool}
  {u v : Worker} {o : Outcome} {i j : Nat} {q : Place}

section

variable (hworkers : b.settings.workers = 1) (htree : w.files.IsTree)
  (hapart : ∀ t ∈ b.tasks directory invs, ∀ u ∈ b.tasks directory invs,
    t.artifact.Apart u.artifact)
  (hreach : Pool.Reaches b (b.pool directory invs w) p)

include hworkers htree hapart hreach

/-- A task is only skipped since one before it has dumped the artifact, if neither the artifact nor
its lock was there at the start. -/
theorem exists_dumped_of_skipped (hj : p.jobs[j]? = some (.taken v))
    (hphase : v.phase = .finished (.ok o)) (hskipped : o.status = .skipped)
    (hq : (b.pool directory invs w).files.place? v.artifact = some q)
    (habsent : (b.pool directory invs w).files.get? q = none)
    (hfree : (b.pool directory invs w).files.at? (lockPath v.artifact) = none) :
    ∃ (i : Nat) (u : Worker), i < j ∧ p.jobs[i]? = some (.taken u) ∧ u.phase.Dumped ∧
      (b.pool directory invs w).files.place? u.artifact = some q := by
  -- the step in which the task came to its end
  have hnew : (b.pool directory invs w).jobs[j]? ≠ some (.taken v) := fun h =>
    not_taken_mem_pool b directory invs w v (List.mem_of_getElem? h)
  obtain ⟨x, x', hx, hstep, hx', hbefore, hafter⟩ := Pool.exists_moment hreach hnew hj
  obtain ⟨hidle, hbehind⟩ :=
    (inOrder_of_reaches hworkers hx).idle_of_finished hstep hbefore hafter hphase
  have hs := sound_of_reaches htree hapart (hx.tail hstep)
  have hleaves := leaves_of_step htree hapart hx hstep hbefore hafter hphase
  obtain ⟨u, hu, hdumped, hplace⟩ := Pool.exists_dumped_of_leaves hs hidle
    (List.mem_of_getElem? hafter) hleaves hskipped hq habsent hfree
  obtain ⟨i, hi⟩ := List.mem_iff_getElem?.1 hu
  have hended : (Job.taken u).ending? ≠ none := by
    have hidle := hidle _ hu
    rwa [Job.isBusy, Option.isNone_eq_false_iff, Option.isSome_iff_ne_none] at hidle
  refine ⟨i, u, ?_, Pool.getElem?_of_reaches hx' hi hended, hdumped, hplace⟩
  rcases Nat.lt_trichotomy i j with hlt | rfl | hgt
  · exact hlt
  · -- the task itself was skipped
    obtain rfl := Job.taken.inj (Option.some.inj (hi.symm.trans hafter))
    rw [hphase, Phase.dumped_finished_iff, hskipped] at hdumped
    exact absurd hdumped (by simp)
  · exact absurd trivial (hbehind i _ hi hgt)

/-- Behind the task that has dumped an artifact no other one parses for it. -/
theorem attempt?_of_dumped (hij : i < j) (hi : p.jobs[i]? = some (.taken u))
    (hj : p.jobs[j]? = some (.taken v)) (hdumped : u.phase.Dumped)
    (hu : (b.pool directory invs w).files.place? u.artifact = some q)
    (hv : (b.pool directory invs w).files.place? v.artifact = some q) : v.attempt? = none := by
  induction hreach generalizing u v with
  | refl => exact absurd (List.mem_of_getElem? hj) (not_taken_mem_pool b directory invs w v)
  | @tail x y hx hstep ih =>
    -- whoever was taken behind a task had to wait for its end
    have hbefore {v₀ : Worker} (hj₀ : x.jobs[j]? = some (.taken v₀)) :
        x.jobs[i]? = some (.taken u) := by
      obtain ⟨job, hi₀, rfl | hmoves⟩ := Pool.exists_job_before_step hstep hi
      · exact hi₀
      · have hover := (inOrder_of_reaches hworkers hx).isOver hij hi₀ hj₀ trivial
        exact absurd hover hmoves.not_isOver
    obtain ⟨job, hj₀, rfl | hmoves⟩ := Pool.exists_job_before_step hstep hj
    · exact ih (hbefore hj₀) hj₀ hdumped hu hv
    · cases hmoves with
      | take => rfl
      | @act v₀ v frontEnd hact =>
        have hi₀ := hbefore hj₀
        obtain ⟨-, htask⟩ := Worker.task_of_step hact
        have hv₀ : (b.pool directory invs w).files.place? v₀.artifact = some q := by
          rwa [Worker.artifact, htask] at hv
        have hnone := ih hi₀ hj₀ hdumped hu hv₀
        by_cases hphase : v₀.phase = .parsing
        · -- the artifact is there, but who parses has found it missing
          have hs := sound_of_reaches htree hapart hx
          obtain ⟨d, hmakes⟩ := (hs.worker j v₀ (Pool.getElem?_crew b hj₀)).makes
            (by rw [hphase]; trivial)
          obtain ⟨-, d', text, hseats, -, -, hthere⟩ :=
            (hs.worker i u (Pool.getElem?_crew b hi₀)).completes hdumped
          have hsame := (hmakes.seats.file.symm.trans hv₀).trans (hu.symm.trans hseats.file)
          have habsent := hmakes.absent
          rw [Option.some.inj hsame] at habsent
          exact absurd (habsent.symm.trans hthere) (by simp)
        · exact (Worker.attempt?_of_step hphase hact).trans hnone

end

end Batch

/-! ### The outcomes in order -/

/-- Outcomes of which each comes behind the first success if it was skipped, and was skipped if it
comes behind that. -/
theorem firstWins_of_pairwise {outcomes : List Outcome}
    (hbehind : outcomes.Pairwise fun o o' => o.status = .dumped → o'.status = .skipped)
    (hskipped : ∀ (front back : List Outcome) (o : Outcome), outcomes = front ++ o :: back →
      o.status = .skipped → ∃ o' ∈ front, o'.status = .dumped) :
    (∀ o ∈ outcomes, o.status.isFailure = true) ∨
      ∃ failures o later, outcomes = failures ++ o :: later ∧
        (∀ o ∈ failures, o.status.isFailure = true) ∧ o.status = .dumped ∧
          ∀ o ∈ later, o.status = .skipped := by
  -- in front of the first success nothing is skipped
  have hfailed {front back : List Outcome} (heq : outcomes = front ++ back)
      (hnone : ∀ o ∈ front, o.status ≠ .dumped) : ∀ o ∈ front, o.status.isFailure = true := by
    intro o ho
    obtain ⟨before, after, rfl⟩ := List.append_of_mem ho
    cases hstatus : o.status with
    | dumped => exact absurd hstatus (hnone o ho)
    | skipped =>
      rw [List.append_assoc, List.cons_append] at heq
      obtain ⟨o', ho', hdumped⟩ := hskipped before (after ++ back) o heq hstatus
      exact absurd hdumped (hnone o' (List.mem_append_left _ ho'))
    | parseFailed | timedOut | failed => rfl
  cases hfind : outcomes.find? fun o => decide (o.status = .dumped) with
  | none =>
    refine .inl (hfailed (List.append_nil _).symm fun o ho hdumped => ?_)
    exact absurd (decide_eq_true hdumped) (by simpa using List.find?_eq_none.1 hfind o ho)
  | some o =>
    obtain ⟨hdumped, failures, later, heq, hnone⟩ := List.find?_eq_some_iff_append.1 hfind
    have hdumped : o.status = .dumped := of_decide_eq_true hdumped
    refine .inr ⟨failures, o, later, heq, hfailed heq fun o' ho' => ?_, hdumped, ?_⟩
    · simpa using hnone o' ho'
    · rw [heq, List.pairwise_append, List.pairwise_cons] at hbehind
      exact fun o' ho' => hbehind.2.1.1 o' ho' hdumped

/-- An outcome is about the artifact at a place. -/
def Outcome.isAt (fs : FileSystem) (q : Place) (o : Outcome) : Bool :=
  fs.place? o.artifact = some q

/-- What becomes of the tasks whose artifact is at a place, by their outcomes in order. -/
inductive Pool.FirstWins (p : Pool) (q : Place) : List Outcome → Prop
  /-- All fail, and the artifact is not there. -/
  | none {failures : List Outcome} (failed : ∀ o ∈ failures, o.status.isFailure = true)
    (absent : p.files.get? q = none) : FirstWins p q failures
  /-- The first success makes the artifact, and the tasks behind it are skipped. -/
  | dumped {failures later : List Outcome} {o : Outcome} {v : Worker} {text : String}
    (failed : ∀ o ∈ failures, o.status.isFailure = true) (dumped : o.status = .dumped)
    (skipped : ∀ o ∈ later, o.status = .skipped) (taken : .taken v ∈ p.jobs)
    (finished : v.phase = .finished (.ok o)) (writes : v.Writes text)
    (there : p.files.get? q = some (.file (Utf8.encode text))) :
    FirstWins p q (failures ++ o :: later)

namespace Batch

variable {b : Batch} {directory : Path} {invs : List Invocation} {w : World} {p : Pool}
  {report : BatchReport} {q : Place}

/-- What becomes of tasks that share their artifacts, when they are handled one after another. -/
structure Collides (b : Batch) (directory : Path) (invs : List Invocation) (w : World) (p : Pool)
    (report : BatchReport) : Prop where
  /-- The parser is called for the tasks in order, once for each that is not skipped. -/
  calls : p.world.calls = w.calls ++ report.calls (b.tasks directory invs)
  /-- Every artifact leads somewhere. -/
  somewhere : ∀ t ∈ b.tasks directory invs,
    ∃ q, (b.pool directory invs w).files.place? t.artifact = some q
  /-- Where neither the artifact nor its lock is when the output directory has been made, the first
  success makes the artifact. -/
  first : ∀ q, (b.pool directory invs w).files.get? q = none →
    (∀ t ∈ b.tasks directory invs, (b.pool directory invs w).files.place? t.artifact = some q →
      (b.pool directory invs w).files.at? (lockPath t.artifact) = none) →
    p.FirstWins q (report.outcomes.filter fun o => o.isAt (b.pool directory invs w).files q)
  /-- With an extension that is part of a name, artifacts at one place are one path. -/
  paths : b.settings.extension ≠ "" → '/' ∉ b.settings.extension.toList →
    b.settings.extension ≠ "." → ∀ t ∈ b.tasks directory invs, ∀ u ∈ b.tasks directory invs,
      ∀ q, (b.pool directory invs w).files.place? t.artifact = some q →
        ((b.pool directory invs w).files.place? u.artifact = some q ↔ u.artifact = t.artifact)

theorem artifact_eq_of_place? (hempty : b.settings.extension ≠ "")
    (hslash : '/' ∉ b.settings.extension.toList) (hpoint : b.settings.extension ≠ ".")
    {fs : FileSystem} {t u : Task} (ht : t ∈ b.tasks directory invs)
    (hu : u ∈ b.tasks directory invs) (hplace : fs.place? t.artifact = some q)
    (hplace' : fs.place? u.artifact = some q) : u.artifact = t.artifact := by
  have hisIn {t : Task} (ht : t ∈ b.tasks directory invs) : t.artifact.IsIn directory := by
    obtain ⟨source, hsource⟩ := exists_artifactPath_of_mem_tasks ht
    rw [hsource]
    exact isIn_artifactPath source directory hempty hslash hpoint
  have hconcat {path : Path} (hpath : path.IsIn directory) (hplace : fs.place? path = some q) :
      ∃ d, path = ⟨directory.root, directory.names ++ [path.name]⟩ ∧ q = d ++ [path.name] := by
    obtain ⟨name, hup, rfl⟩ := hpath
    have hname : (Path.mk directory.root (directory.names ++ [name])).name = name := by
      rw [Path.name, List.getLastD_concat]
    obtain ⟨d, hd⟩ := exists_concat_of_name (by simp) (by rwa [hname]) hplace
    exact ⟨d, by rw [hname], hd⟩
  obtain ⟨d, hpath, rfl⟩ := hconcat (hisIn ht) hplace
  obtain ⟨d', hpath', heq⟩ := hconcat (hisIn hu) hplace'
  rw [hpath', hpath, (concat_inj heq).2]

section

variable (hworkers : b.settings.workers = 1) (htree : w.files.IsTree)
  (hapart : ∀ t ∈ b.tasks directory invs, ∀ u ∈ b.tasks directory invs,
    t.artifact.Apart u.artifact)
  (hreach : Pool.Reaches b (b.pool directory invs w) p) (hover : p.IsOver)
  (hreport : p.result = .ok report)

include hreach hover hreport

/-- Each outcome is that of a worker. -/
theorem exists_worker_of_outcome {i : Nat} {o : Outcome} (ho : report.outcomes[i]? = some o) :
    ∃ v, p.jobs[i]? = some (.taken v) ∧ v.phase = .finished (.ok o) ∧
      o.artifact = v.artifact ∧ v.task ∈ b.tasks directory invs := by
  obtain ⟨v, hjob, htask, hphase, haccurate⟩ := accurate_of_result hreach hover hreport ho
  exact ⟨v, hjob, hphase, haccurate.task.2, List.mem_of_getElem? htask⟩

/-- Of the jobs of a pool with a report, that of a worker has its outcome. -/
theorem outcome_of_worker {i : Nat} {v : Worker} (hi : p.jobs[i]? = some (.taken v)) :
    ∃ o, report.outcomes[i]? = some o ∧ v.phase = .finished (.ok o) ∧
      o.artifact = v.artifact := by
  obtain ⟨v', o, hv, hphase, ho⟩ := Pool.exists_worker_of_result hreach
    (not_cancelled_mem_pool b directory invs w) hover hreport hi
  obtain rfl := Job.taken.inj hv
  obtain ⟨u, hu, hphase', hartifact, -⟩ := exists_worker_of_outcome hreach hover hreport ho
  obtain rfl := Job.taken.inj (Option.some.inj (hi.symm.trans hu))
  exact ⟨o, ho, hphase, hartifact⟩

include hworkers htree hapart

theorem pairwise_outcomes :
    report.outcomes.Pairwise fun o o' => o.isAt (b.pool directory invs w).files q = true →
      o'.isAt (b.pool directory invs w).files q = true → o.status = .dumped →
        o'.status = .skipped := by
  refine List.pairwise_iff_getElem.2 fun i j hi hj hij hat hat' hdumped => ?_
  obtain ⟨u, hu, hphase, hartifact, -⟩ :=
    exists_worker_of_outcome hreach hover hreport (List.getElem?_eq_getElem hi)
  obtain ⟨v, hv, hphase', hartifact', -⟩ :=
    exists_worker_of_outcome hreach hover hreport (List.getElem?_eq_getElem hj)
  rw [Outcome.isAt, hartifact] at hat
  rw [Outcome.isAt, hartifact'] at hat'
  have hdumped : u.phase.Dumped := hphase ▸ Phase.dumped_finished_iff.2 hdumped
  have hnone := attempt?_of_dumped hworkers htree hapart hreach hij hu hv hdumped
    (of_decide_eq_true hat) (of_decide_eq_true hat')
  have htimely := timely_of_reaches hreach (List.mem_of_getElem? hv)
  rw [Worker.Timely, hphase'] at htimely
  exact (htimely _ rfl).1 hnone

theorem exists_dumped_in_front (habsent : (b.pool directory invs w).files.get? q = none)
    (hfree : ∀ t ∈ b.tasks directory invs,
      (b.pool directory invs w).files.place? t.artifact = some q →
        (b.pool directory invs w).files.at? (lockPath t.artifact) = none)
    {front back : List Outcome} {o : Outcome} (heq : report.outcomes = front ++ o :: back)
    (hat : o.isAt (b.pool directory invs w).files q = true) (hskipped : o.status = .skipped) :
    ∃ o' ∈ front, o'.isAt (b.pool directory invs w).files q = true ∧ o'.status = .dumped := by
  have ho : report.outcomes[front.length]? = some o := by rw [heq]; simp
  obtain ⟨v, hv, hphase, hartifact, htask⟩ := exists_worker_of_outcome hreach hover hreport ho
  rw [Outcome.isAt, hartifact] at hat
  have hplace := of_decide_eq_true hat
  obtain ⟨i, u, hlt, hi, hdumped, hplace'⟩ := exists_dumped_of_skipped hworkers htree hapart hreach
    hv hphase hskipped hplace habsent (hfree v.task htask hplace)
  obtain ⟨o', ho', hphase', hartifact'⟩ := outcome_of_worker hreach hover hreport hi
  rw [heq, List.getElem?_append_left hlt] at ho'
  refine ⟨o', List.mem_of_getElem? ho', ?_, ?_⟩
  · rw [Outcome.isAt, hartifact']
    exact decide_eq_true hplace'
  · rwa [hphase', Phase.dumped_finished_iff] at hdumped

/-- The first success makes the artifact. -/
theorem firstWins_of_absent (habsent : (b.pool directory invs w).files.get? q = none)
    (hfree : ∀ t ∈ b.tasks directory invs,
      (b.pool directory invs w).files.place? t.artifact = some q →
        (b.pool directory invs w).files.at? (lockPath t.artifact) = none) :
    p.FirstWins q (report.outcomes.filter fun o => o.isAt (b.pool directory invs w).files q) := by
  have hs := sound_of_reaches htree hapart hreach
  have hpairs := List.pairwise_filter.2
    (pairwise_outcomes (q := q) hworkers htree hapart hreach hover hreport)
  -- a success in front of all that is skipped is in front of it among these outcomes
  have hfront (front back : List Outcome) (o : Outcome)
      (heq : (report.outcomes.filter fun o => o.isAt (b.pool directory invs w).files q) =
        front ++ o :: back) (hskipped : o.status = .skipped) :
      ∃ o' ∈ front, o'.status = .dumped := by
    obtain ⟨l₁, l₂, hsplit, hfront, hback⟩ := List.filter_eq_append_iff.1 heq
    obtain ⟨l₃, l₄, rfl, hnone, hat, -⟩ := List.filter_eq_cons_iff.1 hback
    rw [← List.append_assoc] at hsplit
    obtain ⟨o', ho', hat', hdumped⟩ := exists_dumped_in_front hworkers htree hapart hreach hover
      hreport habsent hfree hsplit hat hskipped
    refine ⟨o', ?_, hdumped⟩
    rw [← hfront]
    rcases List.mem_append.1 ho' with ho' | ho'
    · exact List.mem_filter.2 ⟨ho', hat'⟩
    · exact absurd hat' (hnone o' ho')
  rcases firstWins_of_pairwise hpairs hfront with
    hfailed | ⟨failures, o, later, heq, hfailed, hdumped, hskipped⟩
  · refine .none hfailed ?_
    by_contra hthere
    -- whoever had dumped it would be among the outcomes
    obtain ⟨u, hu, hdumped, hplace⟩ :=
      Pool.exists_dumped_of_idle hs hover.isBusy_eq habsent hthere
    obtain ⟨i, hi⟩ := List.mem_iff_getElem?.1 hu
    obtain ⟨o, ho, hphase, hartifact⟩ := outcome_of_worker hreach hover hreport hi
    have hat : o.isAt (b.pool directory invs w).files q = true := by
      rw [Outcome.isAt, hartifact]
      exact decide_eq_true hplace
    rw [hphase, Phase.dumped_finished_iff] at hdumped
    have hfailed := hfailed o (List.mem_filter.2 ⟨List.mem_of_getElem? ho, hat⟩)
    rw [hdumped] at hfailed
    exact absurd hfailed (by decide)
  · rw [heq]
    have hmem : o ∈ report.outcomes.filter fun o => o.isAt (b.pool directory invs w).files q := by
      rw [heq]
      simp
    obtain ⟨hmem, hat⟩ := List.mem_filter.1 hmem
    obtain ⟨i, hi⟩ := List.mem_iff_getElem?.1 hmem
    obtain ⟨v, hv, hphase, hartifact, -⟩ := exists_worker_of_outcome hreach hover hreport hi
    rw [Outcome.isAt, hartifact] at hat
    have hcompleted : v.phase.Dumped := hphase ▸ Phase.dumped_finished_iff.2 hdumped
    obtain ⟨-, d, text, hseats, -, hwrites, hthere⟩ :=
      (hs.worker i v (Pool.getElem?_crew b hv)).completes hcompleted
    obtain rfl := Option.some.inj (hseats.file.symm.trans (of_decide_eq_true hat))
    exact .dumped hfailed hdumped hskipped (List.mem_of_getElem? hv) hphase hwrites hthere

/-- **The first success wins.**  Files that form a tree, an output directory that has been made, and
artifacts that are not called like what stands beside them: when one worker handles the tasks of a
batch and comes to a report, whatever the parser answers, the parser has been called in order, once
for each task that is not skipped.  Of the tasks with an artifact that was not there, nor its lock,
those in front fail, the first that does not makes the artifact, and those behind it are skipped. -/
theorem collides_of_result : Collides b directory invs w p report where
  calls := calls_of_result hworkers hreach hover hreport
  somewhere t ht := by
    obtain ⟨i, hi⟩ := List.mem_iff_getElem?.1 ht
    obtain ⟨job, hjob, -, rfl⟩ := exists_job_of_task hreach hi
    obtain ⟨v, o, rfl, hphase, -⟩ := Pool.exists_worker_of_result hreach
      (not_cancelled_mem_pool b directory invs w) hover hreport hjob
    exact exists_place_of_finished hreach hjob hphase
  first _ habsent hfree :=
    firstWins_of_absent hworkers htree hapart hreach hover hreport habsent hfree
  paths hempty hslash hpoint t ht u hu q hplace := by
    constructor
    · intro hplace'
      exact artifact_eq_of_place? hempty hslash hpoint ht hu hplace hplace'
    · intro heq
      rwa [heq]

end

/-- Three inputs that are called alike. -/
def alikeInvocation : Invocation :=
  { Invocation.empty with inputs := ["x/a.c", "y/a.c", "z/a.c"] }

/-- A front end that can do nothing with the first of them. -/
def refusesFirst : FrontEnd := fun path options =>
  if path = "x/a.c" then ⟨.zero false, .error (.refusal "")⟩ else Crew.findsNothing path options

/-- The second of the three makes their artifact. -/
theorem collides_alikeInvocation :
    ∃ p report, smallBatch.settings.workers = 1 ∧ World.fresh.files.IsTree ∧
      (∀ t ∈ smallBatch.tasks smallDirectory [alikeInvocation],
        ∀ u ∈ smallBatch.tasks smallDirectory [alikeInvocation], t.artifact.Apart u.artifact) ∧
      Pool.Reaches smallBatch (smallBatch.pool smallDirectory [alikeInvocation] .fresh) p ∧
      p.IsOver ∧ p.result = .ok report ∧
      report.outcomes.map Outcome.status = [.failed, .dumped, .skipped] ∧
      Collides smallBatch smallDirectory [alikeInvocation] .fresh p report := by
  have hrun : ((smallBatch.run [alikeInvocation]).runIn refusesFirst .fresh).1.map
      (fun r => r.outcomes.map Outcome.status) = .ok [.failed, .dumped, .skipped] := by
    decide +kernel
  have hapart : ∀ t ∈ smallBatch.tasks smallDirectory [alikeInvocation],
      ∀ u ∈ smallBatch.tasks smallDirectory [alikeInvocation], t.artifact.Apart u.artifact :=
    apart_of_extension (by decide) (by decide) (by decide) (by decide) (by decide)
  have hworkers : smallBatch.settings.workers = 1 := rfl
  have hsome : 0 < smallBatch.settings.workers := by decide
  obtain ⟨p, report, hreach, hover, -, hreport, hstatus⟩ :=
    exists_reaches_report hsome rfl made_smallBatch hrun
  exact ⟨p, report, hworkers, .fresh, hapart, hreach, hover, hreport, hstatus,
    collides_of_result hworkers .fresh hapart hreach hover hreport⟩

/-- An output directory whose making puts a directory where a lock belongs. -/
def overLock : Path := ⟨.relative, ["a", "x.obj.lock", ".."]⟩

/-- A batch that writes to that directory. -/
def overLockBatch : Batch := ⟨.standard "" overLock, .standard, .everything, ⟨[]⟩⟩

/-- One invocation with one input. -/
def overLockInvocation : Invocation := { Invocation.empty with inputs := ["x.c"] }

/-- The artifact of that input in that directory. -/
def overLockArtifact : Path := ⟨.relative, ["a", "x.obj.lock", "..", "x.obj"]⟩

/-- Neither the artifact nor its lock is there before, and yet the only input is skipped. -/
theorem run_overLock :
    overLockBatch.settings.workers = 1 ∧ overLockArtifact.Apart overLockArtifact ∧
      World.fresh.files.at? overLockArtifact = none ∧
      World.fresh.files.at? (lockPath overLockArtifact) = none ∧
      ((overLockBatch.run [overLockInvocation]).runIn Crew.findsNothing .fresh).1.map
          (fun r : BatchReport => r.outcomes.map fun o => (o.artifact, o.status))
        = .ok [(overLockArtifact, .skipped)] := by
  have hartifact : World.fresh.files.at? overLockArtifact = none := by decide +kernel
  have hlock : World.fresh.files.at? (lockPath overLockArtifact) = none := by decide +kernel
  refine ⟨rfl, ⟨append_ne_self (by decide), append_ne_self (by decide)⟩, hartifact, hlock, ?_⟩
  decide +kernel

end Batch

end DeclGraph
