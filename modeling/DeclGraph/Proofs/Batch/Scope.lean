import DeclGraph.Proofs.Batch.Schedule

/-!
# The scope of failures

What goes wrong with a file is told in its outcome, unless the rules do not fit or the parser gives
something that cannot be reported on (`Worker.Fails`).  There is one exception: a lock that leads
nowhere (`FileSystem.Unclaimable`) makes the task fail, and with it the whole batch.

Such a task does no harm otherwise: it changes no file, and the others go as they would if it were
not in the batch (`Pool.exists_reaches_erased`).
-/

namespace DeclGraph

open FileSystem

/-! ### Locks that lead nowhere -/

namespace FileSystem

variable {fs fs' : FileSystem} {path artifact : Path}

/-- There is no claiming an artifact: it has no name that a lock could be called by, or its lock
leads nowhere. -/
def Unclaimable (fs : FileSystem) (artifact : Path) : Prop :=
  artifact.name = "" ∨ fs.place? (lockPath artifact) = none

/-- The lock of an artifact leads to where no directory stands. -/
structure Lockable (fs : FileSystem) (artifact : Path) : Prop where
  /-- The artifact has a name. -/
  named : artifact.name ≠ ""
  /-- The lock leads somewhere. -/
  place : ∃ p, fs.place? (lockPath artifact) = some p ∧ fs.get? p ≠ some .directory

theorem SameDirectories.unclaimable_iff (h : SameDirectories fs fs') :
    fs'.Unclaimable artifact ↔ fs.Unclaimable artifact := by
  rw [Unclaimable, Unclaimable, h.place?_eq]

theorem Lockable.not_unclaimable (h : fs.Lockable artifact) : ¬ fs.Unclaimable artifact := by
  obtain ⟨hnamed, p, hp, -⟩ := h
  rintro (hname | hnone)
  · exact hnamed hname
  · exact absurd (hp.symm.trans hnone) (by simp)

theorem Lockable.of_same (h : fs.Lockable artifact) (hsame : SameDirectories fs fs') :
    fs'.Lockable artifact := by
  obtain ⟨hnamed, p, hp, hdir⟩ := h
  exact ⟨hnamed, p, (hsame.place?_eq _).trans hp, fun hd => hdir ((hsame.iff p).1 hd)⟩

/-- Who has taken a lock can look for the artifact. -/
theorem Lockable.exists_ok (h : fs.Lockable artifact) : ∃ there, fs.exists artifact = .ok there := by
  obtain ⟨hnamed, p, hp, -⟩ := h
  obtain ⟨q, hplace, -⟩ := place?_eq_of_lock hnamed hnamed hp hp
  exact ⟨_, exists_eq_of_place? hplace⟩

/-- Who has taken a lock can give it back. -/
theorem Lockable.exists_unlink (h : fs.Lockable artifact) :
    ∃ fs', fs.unlinkIfThere (lockPath artifact) = .ok fs' := by
  obtain ⟨-, p, hp, hdir⟩ := h
  obtain ⟨fs', hfs', -⟩ := exists_unlinkIfThere hp hdir
  exact ⟨fs', hfs'⟩

theorem lockable_of_createExclusive (hnamed : artifact.name ≠ "")
    (h : fs.createExclusive (lockPath artifact) = .ok fs') : fs.Lockable artifact := by
  obtain ⟨p, hp, hnone, -⟩ := of_createExclusive h
  exact ⟨hnamed, p, hp, by rw [hnone]; simp⟩

/-- An artifact that cannot be looked for cannot be claimed. -/
theorem unclaimable_of_exists {e : FileError} (h : fs.exists artifact = .error e) :
    fs.Unclaimable artifact := by
  by_contra hclaimable
  obtain ⟨hnamed, hlock⟩ := not_or.1 hclaimable
  obtain ⟨p, hp⟩ := Option.ne_none_iff_exists'.1 hlock
  obtain ⟨q, hplace, -⟩ := place?_eq_of_lock hnamed hnamed hp hp
  rw [exists_eq_of_place? hplace] at h
  exact absurd h (by simp)

/-- A file is only removed where no directory stands. -/
theorem sameDirectories_of_unlinkIfThere (h : fs.unlinkIfThere path = .ok fs') :
    SameDirectories fs fs' := by
  cases hloc : fs.locate path with
  | ok x =>
    obtain ⟨hplace, -⟩ := of_locate hloc
    rw [unlinkIfThere_eq hplace] at h
    split at h
    · rw [← Except.ok.inj h]
      exact .refl fs
    · next hentry =>
      rw [← Except.ok.inj h]
      exact sameDirectories_remove (by rw [hentry]; simp)
    · exact absurd h (by simp)
  | error e =>
    unfold unlinkIfThere unlink at h
    rw [hloc] at h
    dsimp only at h
    split at h
    · rw [← Except.ok.inj h]
      exact .refl fs
    · exact absurd h (by simp)

end FileSystem

/-! ### Failures of workers -/

/-- A report can be made on a compilation. -/
structure Compilation.IsReportable (c : Compilation) (s : BatchSettings) : Prop where
  /-- What is told of it. -/
  lines : ∃ lines, c.graph.describe c.root s.warnings s.info = .ok lines
  /-- Whether it has errors. -/
  errors : ∃ there, c.graph.hasErrors c.root = .ok there

namespace Worker

variable {start : FileSystem} {v v' : Worker} {w w' w₂ : World} {frontEnd : FrontEnd}

/-- Why a worker that can claim its artifact may fail. -/
inductive Fails (v : Worker) : Failure → Prop
  /-- The rules do not fit. -/
  | misfit (e : RulesError) : Fails v (.rules e)
  /-- There is no reporting on what the parser gave. -/
  | unreportable {c : Compilation} {e : TextError} (parsed : v.compilation? = some c)
    (unreportable : ¬ c.IsReportable v.batch.settings) : Fails v (.text e)

/-- A worker that cannot claim its artifact comes to nothing, and others only fail for a reason. -/
def IsScoped (start : FileSystem) (v : Worker) : Prop :=
  match v.phase with
  | .looking => True
  | .claiming => v.artifact.name ≠ ""
  | .rechecking | .yielding | .parsing | .opening _ | .writing .. | .replacing _
  | .discarding .. => start.Lockable v.artifact
  | .releasing ending => start.Lockable v.artifact ∧ ∀ e, ending = .error e → v.Fails e
  | .finished ending =>
    (start.Unclaimable v.artifact →
      ending = .ok v.task.skipped ∨ ∃ e, ending = .error e ∧ ∀ r, e ≠ .rules r) ∧
    (¬ start.Unclaimable v.artifact → ∀ e, ending = .error e → v.Fails e)

theorem IsScoped.lockable (h : v.IsScoped start) (hholds : v.phase.Holds) :
    start.Lockable v.artifact := by
  obtain ⟨b, t, phase, attempt?⟩ := v
  cases phase with
  | looking | claiming | finished => exact absurd hholds id
  | releasing ending => exact h.1
  | rechecking | yielding | parsing | opening | writing | replacing | discarding => exact h

/-! ### What steps keep -/

/-- No step makes a directory or removes one. -/
theorem sameDirectories_of_step (h : v.step frontEnd w = some (v', w')) :
    SameDirectories w.files w'.files := by
  -- files are made, written, moved and removed, and directories are not
  obtain ⟨b, t, phase, attempt?⟩ := v
  cases moves_of_step h with
  | claimed made =>
    obtain ⟨p, -, hnone, hput⟩ := of_createExclusive made
    rw [hput]
    exact sameDirectories_put (by rw [hnone]; simp) []
  | opened made | unspelled made =>
    obtain ⟨p, -, hdir, hput⟩ := of_openEmpty made
    rw [hput]
    exact sameDirectories_put hdir []
  | wrote made =>
    obtain ⟨p, -, hdir, hput⟩ := of_write made
    rw [hput]
    exact sameDirectories_put hdir _
  | replaced made =>
    obtain ⟨p, q, content, -, hfile, -, hdir, hput⟩ := of_replace made
    rw [hput]
    exact sameDirectories_moved hfile hdir
  | yielded gone | discarded gone | released gone => exact sameDirectories_of_unlinkIfThere gone
  | found same | unnamed same | begins same | hidden same | elsewhere same | unclaimed same
  | late same | clear same | lost same | unyielded same | parsed same | unopened same
  | unwritten same | unreplaced same | undiscarded same | unreleased same =>
    rw [same]
    exact .refl _

/-- A dump only fails on account of the rules. -/
theorem isScoped_failDump {b : Batch} {t : Task} {attempt? : Option Attempt}
    (hlock : start.Lockable t.artifact) (parseMs : Int) (report : List String) (why : Failure) :
    IsScoped start ⟨b, t, (t.failDump parseMs report why).phase, attempt?⟩ := by
  unfold Task.failDump
  split
  · refine ⟨hlock, fun e he => ?_⟩
    rw [← Except.error.inj he]
    exact .misfit _
  · split_ifs
    · exact ⟨hlock, fun e he => absurd he (by simp)⟩
    · exact ⟨hlock, fun e he => absurd he (by simp)⟩

/-- A compilation is only a failure where there is no reporting on it. -/
theorem isScoped_report (b : Batch) {t : Task} (hlock : start.Lockable t.artifact) {a : Attempt}
    {c : Compilation} (hc : a.result = .ok c) (parseMs : Int) :
    IsScoped start ⟨b, t, (t.report b.settings c parseMs).phase, some a⟩ := by
  have hfails (e : TextError) (h : ¬ c.IsReportable b.settings) :
      IsScoped start ⟨b, t, .releasing (.error (.text e)), some a⟩ := by
    refine ⟨hlock, fun e he => ?_⟩
    rw [← Except.error.inj he]
    refine .unreportable (c := c) ?_ h
    rw [compilation?, Option.bind_some, hc]
    rfl
  unfold Task.report
  dsimp only
  split
  · next e he =>
    refine hfails e fun hreport => ?_
    obtain ⟨lines, hlines⟩ := hreport.lines
    exact absurd (he.symm.trans hlines) (by simp)
  · split
    · next e he =>
      refine hfails e fun hreport => ?_
      obtain ⟨there, hthere⟩ := hreport.errors
      exact absurd (he.symm.trans hthere) (by simp)
    · exact ⟨hlock, fun e he => absurd he (by simp)⟩
    · unfold Task.startDump
      dsimp only
      split
      · exact hlock
      · exact isScoped_failDump hlock ..

/-- What comes of a parse is only a failure where there is no reporting on it. -/
theorem isScoped_afterParse (b : Batch) {t : Task} (hlock : start.Lockable t.artifact)
    (a : Attempt) : IsScoped start ⟨b, t, (t.afterParse b.settings a).phase, some a⟩ := by
  have houtcome (o : Outcome) : IsScoped start ⟨b, t, .releasing (.ok o), some a⟩ :=
    ⟨hlock, fun e he => absurd he (by simp)⟩
  unfold Task.afterParse
  dsimp only
  split_ifs
  · exact houtcome _
  · split
    · next c hc => exact isScoped_report b hlock hc _
    · split
      · exact houtcome _
      · exact houtcome _
      · exact houtcome _
      · exact houtcome _

theorem IsScoped.step (hsame : SameDirectories start w.files) (h : v.IsScoped start)
    (hstep : v.step frontEnd w = some (v', w')) : v'.IsScoped start := by
  have hlocked := h.lockable
  obtain ⟨b, t, phase, attempt?⟩ := v
  have hskipped : IsScoped start ⟨b, t, .finished (.ok t.skipped), attempt?⟩ :=
    ⟨fun _ => .inl rfl, fun _ e he => absurd he (by simp)⟩
  -- a failure before the lock is taken is one of the lock
  have hrefused {e : Failure} (hrules : ∀ r, e ≠ .rules r) (hlock : start.Unclaimable t.artifact) :
      IsScoped start ⟨b, t, .finished (.error e), attempt?⟩ :=
    ⟨fun _ => .inr ⟨e, rfl, hrules⟩, fun hnot => absurd hlock hnot⟩
  have hlooks (hholds : start.Lockable t.artifact) {e : FileError}
      (he : w.files.exists t.artifact = .error e) : False := by
    obtain ⟨there, hthere⟩ := (hholds.of_same hsame).exists_ok
    exact absurd (he.symm.trans hthere) (by simp)
  have hunlocks (hholds : start.Lockable t.artifact) {e : FileError}
      (he : w.files.unlinkIfThere (lockPath t.artifact) = .error e) : False := by
    obtain ⟨fs', hfs'⟩ := (hholds.of_same hsame).exists_unlink
    exact absurd (he.symm.trans hfs') (by simp)
  cases moves_of_step hstep with
  | found | elsewhere | yielded => exact hskipped
  | unnamed _ _ name => exact hrefused (by simp) (.inl name)
  | begins _ _ name => exact name
  | hidden _ hidden =>
    exact hrefused (by simp) (hsame.unclaimable_iff.1 (unclaimable_of_exists hidden))
  | claimed made => exact (lockable_of_createExclusive h made).of_same hsame.symm
  | unclaimed _ refused other =>
    have hnowhere := place?_eq_none_of_createExclusive refused other
    exact hrefused (by simp) (hsame.unclaimable_iff.1 (.inr hnowhere))
  | late | clear | opened | unspelled | unopened | wrote | unwritten | unreplaced => exact h
  | parsed => exact isScoped_afterParse b h _
  | replaced => exact ⟨h, fun e he => absurd he (by simp)⟩
  | discarded | undiscarded => exact isScoped_failDump h ..
  | released =>
    -- what a worker fails for does not depend on how far it is
    refine ⟨fun hnot => absurd hnot h.1.not_unclaimable, fun _ e he => ?_⟩
    cases h.2 e he with
    | misfit e => exact .misfit e
    | unreportable parsed unreportable => exact .unreportable parsed unreportable
  -- a lock that was taken lets the artifact be looked for, and can be given back
  | lost _ hidden => exact absurd hidden (hlooks h)
  | unyielded _ refused => exact absurd refused (hunlocks h)
  | unreleased _ refused => exact absurd refused (hunlocks h.1)

/-- A worker that cannot claim its artifact changes nothing. -/
theorem IsScoped.files_of_step (hsame : SameDirectories start w.files) (h : v.IsScoped start)
    (hlock : start.Unclaimable v.artifact) (hstep : v.step frontEnd w = some (v', w')) :
    w'.files = w.files := by
  have hfree (hholds : v.phase.Holds) : False := (h.lockable hholds).not_unclaimable hlock
  obtain ⟨b, t, phase, attempt?⟩ := v
  cases moves_of_step hstep with
  | found same | unnamed same | begins same | hidden same | elsewhere same | unclaimed same =>
    exact same
  | claimed made =>
    have hlockable := (lockable_of_createExclusive h made).of_same hsame.symm
    exact absurd hlock hlockable.not_unclaimable
  -- all the others are moves of a worker that has its lock
  | _ => exact absurd trivial hfree

/-- What a worker does depends on the files alone. -/
theorem exists_step_of_files (hfiles : w₂.files = w.files)
    (h : v.step frontEnd w = some (v', w')) :
    ∃ w₂', v.step frontEnd w₂ = some (v', w₂') ∧ w₂'.files = w'.files := by
  cases hnext : v.phase.next v.batch v.task with
  | stop ending =>
    rw [step, hnext] at h
    exact absurd h (by simp)
  | ask request resume =>
    obtain ⟨hanswer, hfiles'⟩ := World.perform_of_files frontEnd hfiles request
    rw [step_of_next frontEnd w hnext] at h
    obtain ⟨rfl, rfl⟩ := Prod.mk.inj (Option.some.inj h)
    rw [step_of_next frontEnd w₂ hnext, hanswer]
    exact ⟨_, rfl, hfiles'⟩

end Worker

theorem Crew.isScoped_of_reaches {begin c : Crew} (hnew : begin.IsNew) (h : Reaches begin c) :
    SameDirectories begin.files c.files ∧ ∀ v ∈ c.workers, v.IsScoped begin.files := by
  induction h with
  | refl =>
    refine ⟨.refl _, fun v hv => ?_⟩
    rw [Worker.IsScoped, hnew v hv]
    trivial
  | @tail c c' _ hstep ih =>
    obtain ⟨i, frontEnd, v, v', w', hi, hact, rfl⟩ := hstep
    refine ⟨ih.1.trans (Worker.sameDirectories_of_step hact), fun u hu => ?_⟩
    rcases List.mem_or_eq_of_mem_set hu with hu | rfl
    · exact ih.2 u hu
    · exact (ih.2 v (List.mem_of_getElem? hi)).step ih.1 hact

/-! ### Pools without one of their jobs -/

namespace Pool

variable {b : Batch} {p p' q : Pool} {i : Nat} {job : Job}

/-- A list of jobs without one of them still has the others where they are. -/
theorem exists_eraseIdx_append (front back : List Job) (hne : i ≠ front.length) :
    ∃ front' back', front'.Sublist front ∧
      ∀ job, (front ++ job :: back).eraseIdx i = front' ++ job :: back' := by
  rcases Nat.lt_or_gt_of_ne hne with hlt | hgt
  · refine ⟨front.eraseIdx i, back, List.eraseIdx_sublist .., fun job => ?_⟩
    exact List.eraseIdx_append_of_lt_length hlt _
  · obtain ⟨k, rfl⟩ := Nat.exists_eq_add_of_lt hgt
    refine ⟨front, back.eraseIdx k, .refl _, fun job => ?_⟩
    rw [List.eraseIdx_append_of_length_le (by omega),
      show front.length + k + 1 - front.length = k + 1 by omega, List.eraseIdx_cons_succ]

theorem eraseIdx_length_append (front back : List Job) (job : Job) :
    (front ++ job :: back).eraseIdx front.length = front ++ back := by
  rw [List.eraseIdx_append_of_length_le (Nat.le_refl _), Nat.sub_self, List.eraseIdx_cons_zero]

/-- A failure of the rules stays one without a job that is not on account of it. -/
theorem Stops.eraseIdx {jobs : List Job} (h : Stops jobs) (hi : jobs[i]? = some job)
    (hrules : ∀ e, job.ending? ≠ some (.error (.rules e))) : Stops (jobs.eraseIdx i) := by
  obtain ⟨front, failed, back, e, rfl, hfailed, hfront⟩ := h
  by_cases hidx : i = front.length
  · rw [hidx, List.getElem?_append_right (Nat.le_refl _), Nat.sub_self] at hi
    obtain rfl : failed = job := Option.some.inj hi
    exact absurd hfailed (hrules e)
  · obtain ⟨front', back', hsub, heq⟩ := exists_eraseIdx_append front back hidx
    exact ⟨front', failed, back', e, heq failed, hfailed, fun job hjob =>
      hfront job (hsub.subset hjob)⟩

/-- What happens in a pool happens without a job that changes nothing. -/
theorem Step.exists_erased (h : Step b p p') (hi : p.jobs[i]? = some job)
    (hrules : ∀ e, job.ending? ≠ some (.error (.rules e)))
    (hquiet : ∀ v v' frontEnd w', job = .taken v → v.step frontEnd p.world = some (v', w') →
      w'.files = p.files)
    (hjobs : q.jobs = p.jobs.eraseIdx i) (hfiles : q.files = p.files) :
    ∃ q', Reaches b q q' ∧ q'.jobs = p'.jobs.eraseIdx i ∧ q'.files = p'.files := by
  obtain ⟨w₂, jobs⟩ := q
  obtain rfl : jobs = p.jobs.eraseIdx i := hjobs
  cases h with
  | @take w front back t first free =>
    by_cases hidx : i = front.length
    · refine ⟨_, .refl, ?_, hfiles⟩
      rw [hidx]
      exact (eraseIdx_length_append ..).trans (eraseIdx_length_append ..).symm
    · obtain ⟨front', back', hsub, heq⟩ := exists_eraseIdx_append front back hidx
      refine ⟨⟨w₂, front' ++ .taken (.start b t) :: back'⟩, ?_, (heq _).symm, hfiles⟩
      dsimp only
      rw [heq]
      -- the others wait as before, and no more of them are busy
      refine .single (.take (fun job hjob => first job (hsub.subset hjob)) ?_)
      have hle :=
        (List.eraseIdx_sublist (front ++ Job.waiting t :: back) i).countP_le (p := Job.isBusy)
      rw [heq] at hle
      omega
  | @act w w' front back v v' frontEnd step =>
    by_cases hidx : i = front.length
    · -- the job that is left out takes its step alone
      rw [hidx, List.getElem?_append_right (Nat.le_refl _), Nat.sub_self] at hi
      refine ⟨_, .refl, ?_, hfiles.trans (hquiet v v' frontEnd w' ?_ step).symm⟩
      · rw [hidx]
        exact (eraseIdx_length_append ..).trans (eraseIdx_length_append ..).symm
      · exact (Option.some.inj hi).symm
    · obtain ⟨front', back', -, heq⟩ := exists_eraseIdx_append front back hidx
      obtain ⟨w₂', hstep, hfiles'⟩ := Worker.exists_step_of_files hfiles step
      refine ⟨⟨w₂', front' ++ .taken v' :: back'⟩, ?_, (heq _).symm, hfiles'⟩
      dsimp only
      rw [heq]
      exact .single (.act hstep)
  | @cancel w front back t stops =>
    by_cases hidx : i = front.length
    · refine ⟨_, .refl, ?_, hfiles⟩
      rw [hidx]
      exact (eraseIdx_length_append ..).trans (eraseIdx_length_append ..).symm
    · obtain ⟨front', back', -, heq⟩ := exists_eraseIdx_append front back hidx
      have hstops := stops.eraseIdx hi hrules
      refine ⟨⟨w₂, front' ++ .cancelled t :: back'⟩, ?_, (heq _).symm, hfiles⟩
      dsimp only
      rw [heq] at hstops ⊢
      exact .single (.cancel hstops)

end Pool

namespace Batch

variable {b : Batch} {directory : Path} {invs : List Invocation} {w : World} {p : Pool}

theorem isScoped_of_reaches (hreach : Pool.Reaches b (b.pool directory invs w) p) :
    SameDirectories (b.pool directory invs w).files p.files ∧
      ∀ job ∈ p.jobs, (job.worker b).IsScoped (b.pool directory invs w).files := by
  obtain ⟨hsame, hscoped⟩ :=
    Crew.isScoped_of_reaches (isNew_pool b directory invs w) (Pool.crew_reaches hreach)
  exact ⟨hsame, fun job hjob => hscoped _ (List.mem_map_of_mem hjob)⟩

/-- A pool goes on without a task whose artifact cannot be claimed as it goes on with it. -/
theorem exists_reaches_erased {i : Nat} {t : Task} (ht : (b.tasks directory invs)[i]? = some t)
    (hlock : (b.pool directory invs w).files.Unclaimable t.artifact)
    (hreach : Pool.Reaches b (b.pool directory invs w) p) {begin : Pool}
    (hjobs : begin.jobs = (b.pool directory invs w).jobs.eraseIdx i)
    (hfiles : begin.files = (b.pool directory invs w).files) :
    ∃ q, Pool.Reaches b begin q ∧ q.jobs = p.jobs.eraseIdx i ∧ q.files = p.files := by
  induction hreach with
  | refl => exact ⟨begin, .refl, hjobs, hfiles⟩
  | @tail p p' hreach hstep ih =>
    obtain ⟨q, hq, hjobs, hfiles⟩ := ih
    obtain ⟨hsame, hscoped⟩ := isScoped_of_reaches hreach
    obtain ⟨job, hi, -, rfl⟩ := exists_job_of_task hreach ht
    have hjob := hscoped job (List.mem_of_getElem? hi)
    -- its worker never gets as far as to the rules
    have hrules (e : RulesError) : job.ending? ≠ some (.error (.rules e)) := by
      intro hended
      obtain ⟨v, rfl, hphase⟩ := Job.ending?_eq_some_iff.1 hended
      have hv : v.IsScoped (b.pool directory invs w).files := hjob
      rw [Worker.IsScoped, hphase] at hv
      rcases hv.1 hlock with hok | ⟨e', herror, hne⟩
      · exact absurd hok (by simp)
      · exact hne e (Except.error.inj herror).symm
    have hquiet (v v' : Worker) (frontEnd : FrontEnd) (w' : World) (hv : job = .taken v)
        (hact : v.step frontEnd p.world = some (v', w')) : w'.files = p.files := by
      subst hv
      exact Worker.IsScoped.files_of_step hsame hjob hlock hact
    obtain ⟨q', hq', hjobs', hfiles'⟩ := hstep.exists_erased hi hrules hquiet hjobs hfiles
    exact ⟨q', hq.trans hq', hjobs', hfiles'⟩

end Batch

/-! ### Inputs and where they stand -/

/-- An input where it stands in invocations. -/
structure Occurrence where
  /-- The invocations before. -/
  before : List Invocation
  /-- The invocation, for everything but its inputs. -/
  invocation : Invocation
  /-- The inputs before. -/
  earlier : List String
  /-- The input. -/
  input : String
  /-- The inputs behind. -/
  later : List String
  /-- The invocations behind. -/
  after : List Invocation

namespace Occurrence

/-- The invocations with the input. -/
def invocations (o : Occurrence) : List Invocation :=
  o.before ++ { o.invocation with inputs := o.earlier ++ o.input :: o.later } :: o.after

/-- The invocations without the input. -/
def others (o : Occurrence) : List Invocation :=
  o.before ++ { o.invocation with inputs := o.earlier ++ o.later } :: o.after

end Occurrence

namespace Batch

variable {b : Batch} {directory : Path} {invs : List Invocation} {w : World} {p : Pool}

/-- The place of the task of an input among the tasks. -/
def indexOf (b : Batch) (directory : Path) (o : Occurrence) : Nat :=
  (b.tasks directory (o.before ++ [{ o.invocation with inputs := o.earlier }])).length

/-- Without an input that is not left out the other tasks are the same. -/
theorem tasks_others (b : Batch) (directory : Path) (o : Occurrence)
    (hin : b.filter.excludes o.input = false) :
    ∃ t, (b.tasks directory o.invocations)[b.indexOf directory o]? = some t ∧
      t.artifact = artifactPath (b.sourceOf o.input) directory b.settings.extension ∧
      b.tasks directory o.others
        = (b.tasks directory o.invocations).eraseIdx (b.indexOf directory o) := by
  have happend (xs ys : List Invocation) :
      b.tasks directory (xs ++ ys) = b.tasks directory xs ++ b.tasks directory ys := by
    rw [tasks, plans, List.flatMap_append, List.filterMap_append]
    rfl
  -- the options of an invocation do not depend on its inputs
  obtain ⟨options, hoptions⟩ : ∃ options, ∀ inputs : List String,
      b.tasks directory [{ o.invocation with inputs := inputs }]
        = (inputs.map (b.plan directory options)).filterMap Plan.task? := by
    refine ⟨.ofInvocation (o.invocation.rebase b.settings.sourceDirectory) b.profile,
      fun inputs => ?_⟩
    rw [tasks, plans, List.flatMap_singleton]
    rfl
  have hsplit (xs : List String) (ys : List Invocation) :
      b.tasks directory (o.before ++ { o.invocation with inputs := o.earlier ++ xs } :: ys)
        = b.tasks directory (o.before ++ [{ o.invocation with inputs := o.earlier }]) ++
          ((xs.map (b.plan directory options)).filterMap Plan.task? ++ b.tasks directory ys) := by
    rw [← List.singleton_append, happend, happend, happend, hoptions, hoptions, List.map_append,
      List.filterMap_append, List.append_assoc, List.append_assoc]
  have htask := b.task?_plan directory options o.input
  rw [hin, if_neg Bool.false_ne_true] at htask
  have hall : b.tasks directory o.invocations = _ := hsplit (o.input :: o.later) o.after
  have hothers : b.tasks directory o.others = _ := hsplit o.later o.after
  rw [List.map_cons, List.filterMap_cons_some htask, List.cons_append] at hall
  refine ⟨⟨b.sourceOf o.input,
    artifactPath (b.sourceOf o.input) directory b.settings.extension, options⟩, ?_, ?_, ?_⟩
  · rw [hall, indexOf, List.getElem?_append_right (Nat.le_refl _), Nat.sub_self]
    rfl
  · dsimp only
  · rw [hall, hothers, indexOf, List.eraseIdx_append_of_length_le (Nat.le_refl _), Nat.sub_self,
      List.eraseIdx_cons_zero]

/-! ### Batches -/

/-- What becomes of the tasks of a batch where failures are scoped. -/
structure Scoped (b : Batch) (directory : Path) (invs : List Invocation) (w : World) (p : Pool) :
    Prop where
  /-- Every task is handled to its end, and has an outcome unless it cannot be claimed. -/
  ended : ∀ (i : Nat) (t : Task), (b.tasks directory invs)[i]? = some t →
    ∃ v ending, p.jobs[i]? = some (.taken v) ∧ v.task = t ∧ v.phase = .finished ending ∧
      ((∃ o, ending = .ok o) ∨ (b.pool directory invs w).files.Unclaimable t.artifact)
  /-- A task that cannot be claimed is at most skipped. -/
  refused : ∀ (i : Nat) (v : Worker) (o : Outcome), p.jobs[i]? = some (.taken v) →
    (b.pool directory invs w).files.Unclaimable v.artifact → v.phase = .finished (.ok o) →
      o = v.task.skipped
  /-- Where every task can be claimed there is a report, which tells of the inputs that are not
  left out, in order. -/
  report : (∀ t ∈ b.tasks directory invs,
      ¬ (b.pool directory invs w).files.Unclaimable t.artifact) →
    ∃ report, p.result = .ok report ∧
      report.outcomes.map (fun o => (o.source, o.artifact)) = (b.entries invs).map fun input =>
        (b.sourceOf input, artifactPath (b.sourceOf input) directory b.settings.extension)
  /-- Without an input whose artifact cannot be claimed the files and the other jobs may come to be
  just the same. -/
  others : ∀ o : Occurrence, o.invocations = invs → b.filter.excludes o.input = false →
    (b.pool directory invs w).files.Unclaimable
      (artifactPath (b.sourceOf o.input) directory b.settings.extension) →
    ∃ q, Pool.Reaches b (b.pool directory o.others w) q ∧ q.IsOver ∧ q.files = p.files ∧
      q.jobs = p.jobs.eraseIdx (b.indexOf directory o)

/-- **Failures are scoped, unless a lock leads nowhere.**  However any number of workers take their
steps, whatever they find and whatever the parser answers, as long as there is reporting on it and
the rules fit: every task is handled to its end, only those fail whose artifacts cannot be claimed,
and the others go as they would without them. -/
theorem scoped_of_isOver (hreach : Pool.Reaches b (b.pool directory invs w) p) (hover : p.IsOver)
    (hreports : ∀ v c, .taken v ∈ p.jobs → v.compilation? = some c →
      c.IsReportable v.batch.settings)
    (hrules : ∀ job ∈ p.jobs, ∀ e, job.ending? ≠ some (.error (.rules e))) :
    Scoped b directory invs w p := by
  obtain ⟨-, hscoped⟩ := isScoped_of_reaches hreach
  -- a job that ends with a failure was refused its lock: the other reasons are excluded
  have hended (job : Job) (hjob : job ∈ p.jobs) :
      ∃ v ending, job = .taken v ∧ v.phase = .finished ending ∧
        ((∃ o, ending = .ok o) ∨ (b.pool directory invs w).files.Unclaimable v.artifact) := by
    obtain ⟨v, ending, rfl, hphase⟩ := Pool.exists_finished hreach
      (not_cancelled_mem_pool b directory invs w) hover hrules hjob
    refine ⟨v, ending, rfl, hphase, ?_⟩
    cases ending with
    | ok o => exact .inl ⟨o, rfl⟩
    | error e =>
      right
      by_contra hlock
      have hv : v.IsScoped (b.pool directory invs w).files := hscoped _ hjob
      rw [Worker.IsScoped, hphase] at hv
      cases hv.2 hlock e rfl with
      | misfit e => exact hrules _ hjob e (Job.ending?_taken.2 hphase)
      | unreportable parsed unreportable => exact unreportable (hreports v _ hjob parsed)
  refine ⟨fun i t ht => ?_, fun i v o hi hlock hphase => ?_, fun hclaimable => ?_,
    fun o hinvs hin hlock => ?_⟩
  · obtain ⟨job, hi, -, htask⟩ := exists_job_of_task hreach ht
    obtain ⟨v, ending, rfl, hphase, hcases⟩ := hended job (List.mem_of_getElem? hi)
    obtain rfl : v.task = t := htask
    exact ⟨v, ending, hi, rfl, hphase, hcases⟩
  · have hv : v.IsScoped (b.pool directory invs w).files :=
      hscoped _ (List.mem_of_getElem? hi)
    rw [Worker.IsScoped, hphase] at hv
    rcases hv.1 hlock with hok | ⟨e, herror, -⟩
    · exact Except.ok.inj hok
    · exact absurd herror (by simp)
  · -- where every artifact can be claimed no job fails
    have hgood (job : Job) (hjob : job ∈ p.jobs) (e : Failure) :
        job.ending? ≠ some (.error e) := by
      intro hfailed
      obtain ⟨v, ending, rfl, hphase, hcases⟩ := hended job hjob
      rcases hcases with ⟨o, rfl⟩ | hlock
      · exact absurd (hphase.symm.trans (Job.ending?_taken.1 hfailed)) (by simp)
      · exact hclaimable _ (mem_tasks_of_reaches hreach hjob) hlock
    obtain ⟨report, hreport⟩ := Pool.exists_result hgood
    exact ⟨report, hreport, map_outcomes hreach hover hreport⟩
  · subst hinvs
    obtain ⟨t, ht, hartifact, htasks⟩ := tasks_others b directory o hin
    rw [← hartifact] at hlock
    have hjobs : (b.pool directory o.others w).jobs
        = (b.pool directory o.invocations w).jobs.eraseIdx (b.indexOf directory o) := by
      rw [pool, pool, htasks, List.eraseIdx_map]
    -- the job that is left out never changes a file, so the others take the same steps
    obtain ⟨q, hq, hqjobs, hqfiles⟩ := exists_reaches_erased ht hlock hreach hjobs rfl
    refine ⟨q, hq, fun job hjob => hover job ?_, hqfiles, hqjobs⟩
    rw [hqjobs] at hjob
    exact List.mem_of_mem_eraseIdx hjob

/-- An input whose artifact has no file name, and one that is as good as any. -/
def nullInvocation : Invocation := { Invocation.empty with inputs := ["\x00.c", "b.c"] }

/-- Whoever has parsed with a front end that finds nothing has something to report on. -/
theorem isReportable_of_answeredBy {v : Worker} {c : Compilation}
    (hanswered : v.AnsweredBy Crew.findsNothing) (hc : v.compilation? = some c)
    (s : BatchSettings) (hinfo : s.info = false) : c.IsReportable s := by
  obtain ⟨a, ha, hresult⟩ := Option.bind_eq_some_iff.1 hc
  rw [hanswered a ha] at hresult
  obtain rfl := Option.some.inj hresult
  refine ⟨⟨[], ?_⟩, false, rfl⟩
  rw [hinfo]
  cases s.warnings with
  | false => rfl
  | true => rfl

/-- How a task has ended, without the outcome. -/
def verdict (ending : Ending) : Except Failure Unit := ending.map fun _ => ()

/-- One task of two fails, and the other one has its outcome. -/
theorem scoped_nullInvocation :
    ∃ p, Pool.Reaches pairBatch (pairBatch.pool smallDirectory [nullInvocation] .fresh) p ∧
      p.IsOver ∧
      (∀ v c, .taken v ∈ p.jobs → v.compilation? = some c →
        c.IsReportable v.batch.settings) ∧
      (∀ job ∈ p.jobs, ∀ e, job.ending? ≠ some (.error (.rules e))) ∧
      p.jobs.map (fun job => job.ending?.map verdict)
        = [some (.error (.file .embeddedNull)), some (.ok ())] ∧
      Scoped pairBatch smallDirectory [nullInvocation] .fresh p := by
  obtain ⟨t, u, htasks, hkinds⟩ : ∃ t u,
      pairBatch.tasks smallDirectory [nullInvocation] = [t, u] ∧
      (pairBatch.swapped Crew.findsNothing t u
        (pairBatch.pool smallDirectory [nullInvocation] .fresh).world).map verdict
          = [.error (.file .embeddedNull), .ok ()] :=
    ⟨_, _, rfl, by decide +kernel⟩
  obtain ⟨p, hreach, hover, hanswered, hmap⟩ := exists_reaches_swapped (b := pairBatch)
    Crew.findsNothing (by decide) t u (pairBatch.pool smallDirectory [nullInvocation] .fresh).world
  rw [← htasks] at hreach
  -- the verdicts are those of the two tasks, one after the other
  have hends : p.jobs.map (fun job => job.ending?.map verdict)
      = [some (.error (.file .embeddedNull)), some (.ok ())] := by
    have hmapped := congrArg (List.map (Option.map verdict)) hmap
    rw [List.map_map, List.map_map] at hmapped
    refine hmapped.trans ?_
    rw [show Option.map verdict ∘ some = some ∘ verdict from rfl, ← List.map_map, hkinds]
    rfl
  have hreports (v : Worker) (c : Compilation) (hv : .taken v ∈ p.jobs)
      (hc : v.compilation? = some c) : c.IsReportable v.batch.settings := by
    obtain ⟨i, hi⟩ := List.mem_iff_getElem?.1 hv
    have hbatch : v.batch = pairBatch := (task_of_reaches hreach hi).1
    exact isReportable_of_answeredBy (hanswered v hv) hc _ (by rw [hbatch]; rfl)
  have hrules (job : Job) (hjob : job ∈ p.jobs) (e : RulesError) :
      job.ending? ≠ some (.error (.rules e)) := by
    intro hfailed
    have hmem := List.mem_map_of_mem (f := fun job => job.ending?.map verdict) hjob
    rw [hends, hfailed] at hmem
    exact absurd hmem (by simp [verdict, Except.map])
  exact ⟨p, hreach, hover, hreports, hrules, hends,
    scoped_of_isOver hreach hover hreports hrules⟩

/-- The batch itself fails, though the rules fit and the parser finds nothing wrong. -/
theorem run_nullInvocation :
    ((pairBatch.run [nullInvocation]).runIn Crew.findsNothing .fresh).1.map (fun _ => ())
      = .error (.file .embeddedNull) := by
  decide +kernel

end Batch

end DeclGraph
