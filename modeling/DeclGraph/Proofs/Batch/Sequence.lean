import DeclGraph.Proofs.Batch.Repetition
import DeclGraph.Proofs.Batch.Schedule

/-!
# One after another

With one worker the tasks of a batch are handled in order: whatever stands before a job that was
taken is over (`Pool.InOrder`), and while one job is handled nobody else is at work.

A worker has parsed its source if it comes to another outcome than a skipped file, and only then
(`Worker.Timely`).  So the parser is called for one task after another, in the order of the tasks
and once for each that is not skipped (`Batch.calls_of_result`).
-/

namespace DeclGraph

/-! ### Parses -/

namespace Worker

variable {v v' : Worker} {w w' : World} {frontEnd : FrontEnd}

/-- What the phase of a worker tells of its parse. -/
def Timely (v : Worker) : Prop :=
  match v.phase with
  | .looking | .claiming | .rechecking | .yielding | .parsing => v.attempt? = none
  | .opening _ | .writing .. | .replacing _ | .discarding .. | .releasing _ => v.attempt? ≠ none
  | .finished ending => ∀ o, ending = .ok o → (v.attempt? = none ↔ o.status = .skipped)

theorem Timely.start (b : Batch) (t : Task) : (Worker.start b t).Timely := rfl

theorem timely_afterParse (b : Batch) (t : Task) (a : Attempt) :
    Timely ⟨b, t, (t.afterParse b.settings a).phase, some a⟩ := by
  rcases t.phase_afterParse b.settings a with ⟨ending, hending, -⟩ |
    ⟨c, snapshot, parseMs, lines, -, -, hopening⟩
  · rw [hending]
    exact Option.some_ne_none a
  · rw [hopening]
    exact Option.some_ne_none a

/-- A worker parses in time. -/
theorem Timely.step (h : v.Timely) (hlawful : v.Lawful)
    (hstep : v.step frontEnd w = some (v', w')) : v'.Timely := by
  obtain ⟨b, t, phase, attempt?⟩ := v
  have hskipped (hnone : attempt? = none) :
      Timely ⟨b, t, .finished (.ok t.skipped), attempt?⟩ := by
    intro o ho
    obtain rfl := Except.ok.inj ho
    exact iff_of_true hnone (by simp [Outcome.status, Task.skipped])
  have herror (e : Failure) : Timely ⟨b, t, .finished (.error e), attempt?⟩ :=
    fun o ho => absurd ho (by simp)
  have hfailed (parseMs : Int) (report : List String) (why : Failure) (hsome : attempt? ≠ none) :
      Timely ⟨b, t, (t.failDump parseMs report why).phase, attempt?⟩ := by
    obtain ⟨ending, hending, -⟩ := t.phase_failDump parseMs report why
    rw [hending]
    exact hsome
  cases moves_of_step hstep with
  | begins | claimed | late | clear => exact h
  | found | elsewhere | yielded => exact hskipped h
  | unnamed | hidden | unclaimed | lost | unyielded | unreleased => exact herror _
  | parsed => exact timely_afterParse b t _
  | opened | unspelled | unopened | wrote | unwritten | replaced | unreplaced => exact h
  | discarded | undiscarded => exact hfailed _ _ _ h
  | released =>
    -- a lock is only kept for an outcome that is worth it
    exact fun o ho => iff_of_false h (hlawful o ho).2

end Worker

/-! ### Order -/

namespace Job

/-- A worker has taken the task. -/
def IsTaken : Job → Prop
  | taken _ => True
  | waiting _ | cancelled _ => False

/-- The call of the parser for the task, if its worker has parsed. -/
def call? : Job → Option Call
  | taken v => v.attempt?.map fun _ => ⟨v.task.source, v.task.options⟩
  | waiting _ | cancelled _ => none

theorem call?_eq_none {job : Job} (h : ¬ job.IsTaken) : job.call? = none := by
  cases job with
  | taken v => exact absurd trivial h
  | waiting t | cancelled t => rfl

end Job

namespace Pool

variable {b : Batch} {p p' : Pool}

/-- Whatever stands before a job that was taken is over. -/
def InOrder (p : Pool) : Prop := p.jobs.Pairwise fun job job' => job'.IsTaken → job.IsOver

/-- A job that is not over has no job behind it that was taken. -/
theorem InOrder.not_isTaken (h : p.InOrder) {front back : List Job} {job : Job}
    (hjobs : p.jobs = front ++ job :: back) (hover : ¬ job.IsOver) :
    ∀ job' ∈ back, ¬ job'.IsTaken := by
  rw [InOrder, hjobs, List.pairwise_append, List.pairwise_cons] at h
  exact fun job' hjob' htaken => hover (h.2.1.1 job' hjob' htaken)

theorem InOrder.isOver (h : p.InOrder) {i j : Nat} (hij : i < j) {job job' : Job}
    (hi : p.jobs[i]? = some job) (hj : p.jobs[j]? = some job') (htaken : job'.IsTaken) :
    job.IsOver := by
  obtain ⟨hlt, rfl⟩ := List.getElem?_eq_some_iff.1 hi
  obtain ⟨hlt', rfl⟩ := List.getElem?_eq_some_iff.1 hj
  exact List.pairwise_iff_getElem.1 h i j hlt hlt' hij htaken

/-- When a job comes to its end nobody is at work, and no job behind it was taken. -/
theorem InOrder.idle_of_finished (h : p.InOrder) (hstep : Step b p p') {i : Nat} {v : Worker}
    {ending : Ending} (hbefore : p.jobs[i]? ≠ some (.taken v))
    (hafter : p'.jobs[i]? = some (.taken v)) (hphase : v.phase = .finished ending) :
    (∀ job ∈ p'.jobs, job.isBusy = false) ∧
      ∀ (j : Nat) (job : Job), p'.jobs[j]? = some job → i < j → ¬ job.IsTaken := by
  obtain ⟨k, job, job', hk, hjobs, hmoves⟩ := exists_moves_of_step hstep
  have hki : k = i := by
    by_contra hne
    rw [hjobs, List.getElem?_set_ne hne] at hafter
    exact hbefore hafter
  subst hki
  obtain rfl : job' = .taken v := by
    rw [hjobs, List.getElem?_set_self (List.getElem?_eq_some_iff.1 hk).1] at hafter
    exact Option.some.inj hafter
  have htaken : job.IsTaken := by
    cases hmoves with
    | take => exact absurd hphase (by simp [Worker.start])
    | act => trivial
  have hother {j : Nat} {other : Job} (hj : p'.jobs[j]? = some other) (hne : j ≠ k) :
      p.jobs[j]? = some other := by
    rwa [hjobs, List.getElem?_set_ne (Ne.symm hne)] at hj
  -- what stands behind the job would have had to wait for it
  have hbehind (j : Nat) (other : Job) (hj : p'.jobs[j]? = some other) (hlt : k < j) :
      ¬ other.IsTaken := fun hother' =>
    hmoves.not_isOver (h.isOver hlt hk (hother hj (by omega)) hother')
  refine ⟨fun other hmem => ?_, hbehind⟩
  obtain ⟨j, hj⟩ := List.mem_iff_getElem?.1 hmem
  rcases Nat.lt_trichotomy j k with hlt | rfl | hgt
  · exact (h.isOver hlt (hother hj (by omega)) hk htaken).isBusy_eq
  · obtain rfl := Option.some.inj (hafter.symm.trans hj)
    rw [Job.isBusy, Job.ending?_taken.2 hphase]
    rfl
  · have hwaits := hbehind j other hj hgt
    cases other with
    | taken u => exact absurd trivial hwaits
    | waiting t | cancelled t => rfl

/-- What a job has come to, it has come to in some step. -/
theorem exists_moment (h : Reaches b p p') {i : Nat} {job : Job}
    (hbefore : p.jobs[i]? ≠ some job) (hafter : p'.jobs[i]? = some job) :
    ∃ q q', Reaches b p q ∧ Step b q q' ∧ Reaches b q' p' ∧ q.jobs[i]? ≠ some job ∧
      q'.jobs[i]? = some job := by
  induction h with
  | refl => exact absurd hafter hbefore
  | @tail x y hreach hstep ih =>
    by_cases hx : x.jobs[i]? = some job
    · obtain ⟨q, q', hq, hqq', hq', hbefore', hafter'⟩ := ih hx
      exact ⟨q, q', hq, hqq', hq'.tail hstep, hbefore', hafter'⟩
    · exact ⟨x, y, hreach, hstep, .refl, hx, hafter⟩

/-- With one worker every step keeps the order. -/
theorem InOrder.step (hworkers : b.settings.workers = 1) (h : p.InOrder) (hstep : Step b p p') :
    p'.InOrder := by
  -- only what stands between a job and those around it has to be looked at again
  have hset {front back : List Job} {job job' : Job}
      (h : (front ++ job :: back).Pairwise fun job job' => job'.IsTaken → job.IsOver)
      (hfront : job'.IsTaken → ∀ a ∈ front, a.IsOver)
      (hback : ∀ a ∈ back, a.IsTaken → job'.IsOver) :
      (front ++ job' :: back).Pairwise fun job job' => job'.IsTaken → job.IsOver := by
    rw [List.pairwise_append, List.pairwise_cons] at h ⊢
    obtain ⟨hleft, ⟨-, hright⟩, hacross⟩ := h
    refine ⟨hleft, ⟨hback, hright⟩, fun a ha c hc => ?_⟩
    rcases List.mem_cons.1 hc with rfl | hc
    · exact fun htaken => hfront htaken a ha
    · exact hacross a ha c (List.mem_cons_of_mem _ hc)
  cases hstep with
  | @take w front back t first free =>
    refine hset h (fun _ job hjob => ?_) fun job hjob htaken => ?_
    · -- the one worker is free, so nobody is at work
      rw [hworkers] at free
      have hidle : (front ++ .waiting t :: back).countP Job.isBusy = 0 := by omega
      have hbusy := List.countP_eq_zero.1 hidle job (List.mem_append_left _ hjob)
      have hwaits := first job hjob
      cases job with
      | waiting t => exact absurd trivial hwaits
      | cancelled t => trivial
      | taken v => simpa [Job.isBusy, Job.IsOver, Option.isNone_iff_eq_none] using hbusy
    · exact absurd htaken (h.not_isTaken rfl id job hjob)
  | @act w w' front back v v' frontEnd hact =>
    refine hset h (fun _ job hjob => ?_) fun job hjob htaken => ?_
    · exact (List.pairwise_append.1 h).2.2 job hjob _ List.mem_cons_self trivial
    · exact absurd htaken (h.not_isTaken rfl (Worker.not_isOver_of_step hact) job hjob)
  | @cancel w front back t stops =>
    exact hset h (fun htaken => absurd htaken id) fun _ _ _ => trivial

/-- A step at a job with no job behind it that was taken keeps the calls in the order of the
jobs. -/
theorem calls_of_act {v v' : Worker} {w w' : World} {frontEnd : FrontEnd} {front back : List Job}
    {calls : List Call} (htimely : v.Timely) (hback : ∀ job ∈ back, ¬ job.IsTaken)
    (hcalls : w.calls = calls ++ (front ++ .taken v :: back).filterMap Job.call?)
    (hact : v.step frontEnd w = some (v', w')) :
    w'.calls = calls ++ (front ++ .taken v' :: back).filterMap Job.call? := by
  have hnone : back.filterMap Job.call? = [] :=
    List.filterMap_eq_nil_iff.2 fun job hjob => Job.call?_eq_none (hback job hjob)
  obtain ⟨-, htask⟩ := Worker.task_of_step hact
  -- only a parse is a call, and the job is then the last that was taken
  by_cases hphase : v.phase = .parsing
  · have hbefore : (Job.taken v).call? = none := by
      rw [Worker.Timely, hphase] at htimely
      have htimely : v.attempt? = none := htimely
      rw [Job.call?, htimely]
      rfl
    have hafter : (Job.taken v').call? = some ⟨v.task.source, v.task.options⟩ := by
      rw [Job.call?, Worker.attempt?_of_parsing hphase hact, htask]
      rfl
    have hnext : v.phase.next v.batch v.task
        = .ask (.parse v.task.source v.task.options) (v.task.afterParse v.batch.settings) := by
      rw [hphase]
      rfl
    rw [Worker.step_of_next frontEnd w hnext] at hact
    obtain ⟨-, rfl⟩ := Prod.mk.inj (Option.some.inj hact)
    rw [List.filterMap_append, List.filterMap_cons_none hbefore, hnone, List.append_nil] at hcalls
    rw [List.filterMap_append, List.filterMap_cons_some hafter, hnone, ← List.append_assoc,
      ← hcalls]
    rfl
  · -- any other step leaves both the calls and the attempt
    have hcall : (Job.taken v').call? = (Job.taken v).call? := by
      rw [Job.call?, Job.call?, Worker.attempt?_of_step hphase hact, htask]
    rw [Worker.calls_of_step hphase hact, hcalls, List.filterMap_append, List.filterMap_append,
      List.filterMap_cons, List.filterMap_cons, hcall]

/-- Every step keeps the calls in the order of the jobs. -/
theorem calls_of_step {calls : List Call} (horder : p.InOrder)
    (htimely : ∀ v, .taken v ∈ p.jobs → v.Timely)
    (hcalls : p.world.calls = calls ++ p.jobs.filterMap Job.call?) (hstep : Step b p p') :
    p'.world.calls = calls ++ p'.jobs.filterMap Job.call? := by
  have hidle {front back : List Job} {job job' : Job} (h : job.call? = none)
      (h' : job'.call? = none) : (front ++ job' :: back).filterMap Job.call?
        = (front ++ job :: back).filterMap Job.call? := by
    rw [List.filterMap_append, List.filterMap_append, List.filterMap_cons_none h,
      List.filterMap_cons_none h']
  cases hstep with
  | take => exact hcalls.trans (congrArg _ (hidle rfl rfl).symm)
  | cancel => exact hcalls.trans (congrArg _ (hidle rfl rfl).symm)
  | @act w w' front back v v' frontEnd hact =>
    have hback := horder.not_isTaken rfl (Worker.not_isOver_of_step hact)
    exact calls_of_act (htimely v (by simp)) hback hcalls hact

end Pool

/-! ### Batches with one worker -/

namespace Batch

variable {b : Batch} {directory : Path} {invs : List Invocation} {w : World} {p : Pool}

theorem timely_of_reaches (hreach : Pool.Reaches b (b.pool directory invs w) p) {v : Worker}
    (hv : .taken v ∈ p.jobs) : v.Timely := by
  obtain ⟨i, hi⟩ := Pool.exists_getElem? (b := b) hv
  refine ((Pool.crew_reaches hreach).forall_workers (P := fun v => v.Timely ∧ v.Lawful)
    (fun h hstep => ⟨h.1.step h.2 hstep, h.2.step hstep⟩) (fun u hu => ?_) v
    (List.mem_of_getElem? hi)).1
  simp only [pool, Pool.crew, List.map_map, List.mem_map, Function.comp_apply] at hu
  obtain ⟨t, -, rfl⟩ := hu
  exact ⟨.start b t, trivial⟩

theorem inOrder_of_reaches (hworkers : b.settings.workers = 1)
    (hreach : Pool.Reaches b (b.pool directory invs w) p) : p.InOrder := by
  induction hreach with
  | refl =>
    rw [Pool.InOrder, pool, List.pairwise_map]
    exact List.pairwise_of_forall fun _ _ htaken => absurd htaken id
  | tail _ hstep ih => exact ih.step hworkers hstep

/-- The parser has been called for the tasks in order, as far as their workers have parsed. -/
theorem calls_of_reaches (hworkers : b.settings.workers = 1)
    (hreach : Pool.Reaches b (b.pool directory invs w) p) :
    p.world.calls = w.calls ++ p.jobs.filterMap Job.call? := by
  induction hreach with
  | refl =>
    have hnone : (b.pool directory invs w).jobs.filterMap Job.call? = [] := by
      rw [pool, List.filterMap_map]
      exact List.filterMap_eq_nil_iff.2 fun t _ => rfl
    rw [hnone, List.append_nil]
    rfl
  | tail hreach hstep ih =>
    exact Pool.calls_of_step (inOrder_of_reaches hworkers hreach)
      (fun v hv => timely_of_reaches hreach hv) ih hstep

end Batch

/-- The calls of the parser for tasks with their outcomes: one for each that was not skipped. -/
def BatchReport.calls (report : BatchReport) (tasks : List Task) : List Call :=
  (tasks.zip report.outcomes).filterMap fun x =>
    if x.2.status = .skipped then none else some ⟨x.1.source, x.1.options⟩

namespace Batch

variable {b : Batch} {directory : Path} {invs : List Invocation} {w : World} {p : Pool}

/-- With one worker the parser is called for the tasks in order, once for each that is not
skipped. -/
theorem calls_of_result (hworkers : b.settings.workers = 1)
    (hreach : Pool.Reaches b (b.pool directory invs w) p) (hover : p.IsOver) {report : BatchReport}
    (hreport : p.result = .ok report) :
    p.world.calls = w.calls ++ report.calls (b.tasks directory invs) := by
  have hlength := length_outcomes hreach hover hreport
  -- a job has called the parser just when its outcome is no skipped file
  have hmap : p.jobs.map Job.call? = ((b.tasks directory invs).zip report.outcomes).map fun x =>
      if x.2.status = .skipped then none else some ⟨x.1.source, x.1.options⟩ := by
    refine List.ext_getElem? fun i => ?_
    rw [List.getElem?_map, List.getElem?_map]
    cases hjob : p.jobs[i]? with
    | none =>
      rw [List.getElem?_eq_none_iff, length_jobs hreach] at hjob
      rw [List.getElem?_eq_none (by rw [List.length_zip, hlength]; omega)]
      rfl
    | some job =>
      obtain ⟨v, o, rfl, hphase, ho⟩ := Pool.exists_worker_of_result hreach
        (not_cancelled_mem_pool b directory invs w) hover hreport hjob
      have htask : (b.tasks directory invs)[i]? = some v.task := (task_of_reaches hreach hjob).2
      have htimely := timely_of_reaches hreach (List.mem_of_getElem? hjob)
      rw [Worker.Timely, hphase] at htimely
      have htimely : v.attempt? = none ↔ o.status = .skipped := htimely o rfl
      have hzip : ((b.tasks directory invs).zip report.outcomes)[i]? = some (v.task, o) :=
        List.getElem?_zip_eq_some.2 ⟨htask, ho⟩
      rw [hzip, Option.map_some, Option.map_some, Job.call?]
      cases hattempt : v.attempt? with
      | none => rw [if_pos (htimely.1 hattempt)]; rfl
      | some a =>
        rw [if_neg fun hskipped => absurd (hattempt.symm.trans (htimely.2 hskipped)) (by simp)]
        rfl
  rw [calls_of_reaches hworkers hreach, BatchReport.calls]
  have hid := congrArg (List.filterMap id) hmap
  rw [List.filterMap_map, List.filterMap_map] at hid
  exact congrArg _ hid

end Batch

end DeclGraph
