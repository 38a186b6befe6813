import DeclGraph.Proofs.Batch.Scope
import DeclGraph.Proofs.FileSystem.Form

/-!
# Failures that escape from a batch

A batch fails with the failure of one of its files.  Whoever runs it has an answer to rules that do
not fit and to refusals of the file system (`Failure.isReported`).  Any other failure escapes, and
`Batch.Escapes` says what it may be: the artifact of a task has a zero character in its path, or the
parser gave something that cannot be reported on.  This holds for any number of workers in any order
(`Batch.escapes_of_result`), and so for a batch that handles its files one after another
(`Batch.escapes_of_run`).
-/

namespace DeclGraph

open FileSystem

/-- Whoever runs a batch has an answer to the failure: the rules do not fit, or the file system
refuses something. -/
def Failure.isReported : Failure → Bool
  | .rules _ => true
  | e => e.isFromSystem

/-! ### Workers -/

namespace Worker

variable {start : FileSystem} {v v' : Worker} {w w' : World} {frontEnd : FrontEnd}

/-- Why a worker that cannot claim its artifact fails. -/
inductive Refused (v : Worker) : Failure → Prop
  /-- The file system refuses something. -/
  | system {e : FileError} (system : e.isFromSystem = true) : Refused v (.file e)
  /-- The path of the artifact is none. -/
  | embeddedNull (null : v.artifact.HoldsNull) : Refused v (.file .embeddedNull)
  /-- The artifact has no name. -/
  | unnamed (name : v.artifact.name = "") : Refused v (.unnamed (.empty v.artifact))

/-- Where the lock cannot be created the path of the artifact is none, or the file system refuses. -/
theorem refused_of_createExclusive {fs : FileSystem} {e : FileError}
    (h : fs.createExclusive (lockPath v.artifact) = .error e) : v.Refused (.file e) := by
  cases hsystem : e.isFromSystem with
  | true => exact .system hsystem
  | false =>
    obtain rfl := FileError.eq_embeddedNull hsystem
    have hnull : (lockPath v.artifact).HoldsNull := holdsNull_of_createExclusive h
    exact .embeddedNull (hnull.of_beside (by decide))

/-- The step in which a worker that cannot claim its artifact fails. -/
theorem refused_of_step (h : v.IsScoped start) (hlock : start.Unclaimable v.artifact)
    (hstep : v.step frontEnd w = some (v', w')) {e : Failure}
    (hfailed : v'.phase = .finished (.error e)) : v'.Refused e := by
  have hfree (hholds : v.phase.Holds) : False := (h.lockable hholds).not_unclaimable hlock
  obtain ⟨b, t, phase, attempt?⟩ := v
  cases moves_of_step hstep with
  | found | begins | claimed | elsewhere => exact absurd hfailed (by simp)
  | unnamed _ _ name =>
    obtain rfl := Except.error.inj (Phase.finished.inj hfailed)
    exact .unnamed name
  | hidden _ hidden =>
    obtain rfl := Except.error.inj (Phase.finished.inj hfailed)
    exact .system (isFromSystem_of_exists hidden)
  | unclaimed _ refused =>
    obtain rfl := Except.error.inj (Phase.finished.inj hfailed)
    exact refused_of_createExclusive refused
  | _ => exact absurd trivial hfree

end Worker

/-- Whatever a crew does, a worker that cannot claim its artifact only fails for a reason. -/
theorem Crew.refused_of_reaches {begin c : Crew} (hnew : begin.IsNew) (h : Reaches begin c)
    {v : Worker} (hv : v ∈ c.workers) (hlock : begin.files.Unclaimable v.artifact) {e : Failure}
    (hfailed : v.phase = .finished (.error e)) : v.Refused e := by
  induction h generalizing v with
  | refl => exact absurd ((hnew v hv).symm.trans hfailed) (by simp)
  | @tail c c' hreach hstep ih =>
    obtain ⟨-, hscoped⟩ := isScoped_of_reaches hnew hreach
    obtain ⟨i, frontEnd, u, u', w', hi, hact, rfl⟩ := hstep
    rcases List.mem_or_eq_of_mem_set hv with hv | rfl
    · exact ih hv hlock hfailed
    · -- the worker that took the step had the same task before
      have htask : v.artifact = u.artifact := by
        rw [Worker.artifact, (Worker.task_of_step hact).2]
      rw [htask] at hlock
      exact Worker.refused_of_step (hscoped u (List.mem_of_getElem? hi)) hlock hact hfailed

/-! ### Batches -/

namespace Batch

variable {b : Batch} {directory : Path} {invs : List Invocation} {w : World} {p : Pool}

/-- What a batch may fail with that nobody has an answer to, where the parser gave some
compilations. -/
inductive Escapes (b : Batch) (directory : Path) (invs : List Invocation)
    (Given : Compilation → Prop) : Failure → Prop
  /-- The artifact of a task has a path that is none. -/
  | embeddedNull {t : Task} (task : t ∈ b.tasks directory invs) (null : t.artifact.HoldsNull) :
    Escapes b directory invs Given (.file .embeddedNull)
  /-- There is no reporting on what the parser gave. -/
  | unreportable {c : Compilation} {e : TextError} (given : Given c)
    (unreportable : ¬ c.IsReportable b.settings) : Escapes b directory invs Given (.text e)

theorem Escapes.mono {Given Given' : Compilation → Prop} (hgiven : ∀ c, Given c → Given' c)
    {e : Failure} (h : b.Escapes directory invs Given e) : b.Escapes directory invs Given' e := by
  cases h with
  | embeddedNull task null => exact .embeddedNull task null
  | unreportable given unreportable => exact .unreportable (hgiven _ given) unreportable

/-- What the endings fail with is one of them. -/
theorem mem_of_collect {endings : List Ending} {e : Failure}
    (h : collect endings = .error e) : .error e ∈ endings := by
  -- the first error is the one that comes out, so an ending without one can be left out
  induction endings with
  | nil => exact absurd h (by simp [collect, Except.map, pure, Except.pure])
  | cons ending rest ih =>
    cases ending with
    | error e' =>
      have heq : collect (.error e' :: rest) = .error e' := by
        simp [collect, Except.map, bind, Except.bind]
      rw [Except.error.inj (heq.symm.trans h)]
      exact List.mem_cons_self
    | ok o =>
      refine List.mem_cons_of_mem _ (ih ?_)
      unfold collect at h ⊢
      rw [List.mapM_cons] at h
      cases hall : rest.mapM id with
      | error e' =>
        rw [hall] at h
        exact h
      | ok outcomes =>
        rw [hall] at h
        exact absurd h (by simp [bind, Except.bind, pure, Except.pure, Except.map])

/-- Every artifact has a name, if the extension is one. -/
theorem name_ne_empty_of_mem_tasks (hempty : b.settings.extension ≠ "")
    (hslash : '/' ∉ b.settings.extension.toList) {t : Task} (ht : t ∈ b.tasks directory invs) :
    t.artifact.name ≠ "" := by
  obtain ⟨source, hsource⟩ := exists_artifactPath_of_mem_tasks ht
  obtain ⟨stem, hstem⟩ := exists_name_artifactPath source directory hempty hslash
  rw [hsource]
  intro hname
  rw [hname] at hstem
  exact absurd hstem (by simp)

/-- However any number of workers take their steps: a batch that fails, fails with something that
its caller has an answer to, or one of few failures escapes. -/
theorem escapes_of_result (hempty : b.settings.extension ≠ "")
    (hslash : '/' ∉ b.settings.extension.toList)
    (hreach : Pool.Reaches b (b.pool directory invs w) p) {e : Failure}
    (hresult : p.result = .error e) :
    e.isReported = true ∨ b.Escapes directory invs
      (fun c => ∃ v, .taken v ∈ p.jobs ∧ v.compilation? = some c) e := by
  -- the failure is that of a worker
  obtain ⟨job, hjob, hended⟩ := List.mem_filterMap.1 (mem_of_collect hresult)
  obtain ⟨v, rfl, hphase⟩ := Job.ending?_eq_some_iff.1 hended
  obtain ⟨-, hscoped⟩ := isScoped_of_reaches hreach
  have hv : v.IsScoped (b.pool directory invs w).files := hscoped _ hjob
  have hbatch : v.batch = b := by
    obtain ⟨i, hi⟩ := List.mem_iff_getElem?.1 hjob
    exact (task_of_reaches hreach hi).1
  by_cases hlock : (b.pool directory invs w).files.Unclaimable v.artifact
  · have hcrew : v ∈ (p.crew b).workers := List.mem_map_of_mem (f := Job.worker b) hjob
    have hrefused := Crew.refused_of_reaches (isNew_pool b directory invs w)
      (Pool.crew_reaches hreach) hcrew hlock hphase
    have htask := mem_tasks_of_reaches hreach hjob
    cases hrefused with
    | system hsystem => exact .inl hsystem
    | embeddedNull hnull => exact .inr (.embeddedNull htask hnull)
    | unnamed hname => exact absurd hname (name_ne_empty_of_mem_tasks hempty hslash htask)
  · rw [Worker.IsScoped, hphase] at hv
    cases hv.2 hlock e rfl with
    | misfit e => exact .inl rfl
    | unreportable parsed unreportable =>
      rw [hbatch] at unreportable
      exact .inr (.unreportable ⟨v, hjob, parsed⟩ unreportable)

/-- A batch without an output directory fails before it does anything. -/
theorem runIn_run_of_unnamed {frontEnd : FrontEnd} {e : Path.NameError}
    (h : b.settings.outputDirectory = .error e) :
    (b.run invs).runIn frontEnd w = (.error (.unnamed e), w) := by
  rw [run, h]
  rfl

/-- A batch whose output directory cannot be made fails with what was made of it. -/
theorem runIn_run_of_refused {frontEnd : FrontEnd} {files : FileSystem} {e : FileError}
    (hdirectory : b.settings.outputDirectory = .ok directory)
    (hmake : w.files.makeDirectories directory true = (files, .error e)) :
    (b.run invs).runIn frontEnd w = (.error (.file e), { w with files := files }) := by
  rw [run, hdirectory]
  dsimp only
  rw [Program.runIn_bind, Program.runIn_request]
  dsimp only [World.perform]
  rw [hmake]
  rfl

/-- What escapes from a batch that handles its files one after another, once the output directory
has been made. -/
theorem escapes_of_run (hempty : b.settings.extension ≠ "")
    (hslash : '/' ∉ b.settings.extension.toList) (hworkers : 0 < b.settings.workers)
    (hdirectory : b.settings.outputDirectory = .ok directory)
    (hmake : (w.files.makeDirectories directory true).2 = .ok ()) {frontEnd : FrontEnd}
    {e : Failure} (h : ((b.run invs).runIn frontEnd w).1 = .error e) :
    e.isReported = true ∨ b.Escapes directory invs (fun c =>
      ∃ t ∈ b.tasks directory invs, (frontEnd t.source t.options).result = .ok c) e := by
  obtain ⟨p, hreach, -, hanswered, -, hresult⟩ :=
    exists_reaches_result invs frontEnd hworkers hdirectory hmake
  refine (escapes_of_result hempty hslash hreach (hresult.trans h)).imp_right fun hescapes =>
    hescapes.mono ?_
  rintro c ⟨v, hv, hc⟩
  exact ⟨v.task, mem_tasks_of_reaches hreach hv, (hanswered v hv).result_eq hc⟩

end Batch

end DeclGraph
