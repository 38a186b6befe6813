import DeclGraph.Proofs.Batch.Artifact
import DeclGraph.Proofs.Batch.Escape

/-!
# Batches on files that are the same in the output directory

All that a batch asks for, once its output directory has been made, are files in it
(`Batch.isIn_fill`).  So it comes to the same on two worlds whose files differ elsewhere only
(`World.Mirrors`): `Batch.runIn_run_of_adds` says so of a batch that handles its files one after
another, and `Batch.exists_reaches_of_adds` of every way that a pool may go.
-/

namespace DeclGraph

open FileSystem

/-- Two results are the same, or both are failures of one kind, perhaps in other words. -/
def Failure.Alike {α : Type} (kind : Failure → Bool) (r r' : Except Failure α) : Prop :=
  r' = r ∨ ∃ e e', r = .error e ∧ r' = .error e' ∧ kind e = true ∧ kind e' = true

theorem Failure.Alike.ok_iff {α : Type} {kind : Failure → Bool} {r r' : Except Failure α}
    (h : Alike kind r r') (a : α) : r' = .ok a ↔ r = .ok a := by
  rcases h with rfl | ⟨e, e', rfl, rfl, -⟩
  · exact Iff.rfl
  · exact ⟨fun heq => absurd heq (by simp), fun heq => absurd heq (by simp)⟩

/-! ### Requests -/

/-- What a request asks for is in a directory. -/
def Request.IsIn (directory : Path) : {β : Type} → Request β → Prop
  | _, .exists path => path.IsIn directory
  | _, .read path => path.IsIn directory
  | _, .createExclusive path => path.IsIn directory
  | _, .openEmpty path => path.IsIn directory
  | _, .write path _ => path.IsIn directory
  | _, .replace source target => source.IsIn directory ∧ target.IsIn directory
  | _, .unlinkIfThere path => path.IsIn directory
  | _, .makeDirectories _ => False
  | _, .parse .. => True
  | _, .log _ => True

/-- A program asks for nothing but files in a directory. -/
inductive Program.IsIn (directory : Path) {α : Type} : Program α → Prop
  /-- It asks for nothing. -/
  | done (a : α) : IsIn directory (.done a)
  /-- It asks for a file in the directory, and goes on so with any answer. -/
  | ask {β : Type} {request : Request β} {next : β → Program α} (isIn : request.IsIn directory)
    (goesOn : ∀ answer, IsIn directory (next answer)) : IsIn directory (.ask request next)

namespace Program

variable {directory : Path}

theorem IsIn.bind {α β : Type} {p : Program α} {k : α → Program β} (hp : p.IsIn directory)
    (hk : ∀ a, (k a).IsIn directory) : (p >>= k).IsIn directory := by
  induction hp with
  | done a => exact hk a
  | ask isIn _ ih => exact .ask isIn ih

theorem isIn_tell (lines : List LogLine) : (tell lines).IsIn directory := by
  induction lines with
  | nil => exact .done ()
  | cons line rest ih => exact .ask trivial fun _ => ih

end Program

/-! ### Worlds -/

/-- One world has some directories more than another, and what stands at a place may differ besides,
but the same parses were asked for. -/
structure World.Adds (New : Place → Prop) (p : Place) (w w' : World) : Prop where
  /-- The files. -/
  files : FileSystem.Adds New p w.files w'.files
  /-- The parses. -/
  calls : w'.calls = w.calls

/-- The files of one world show the same in a directory as those of another, and the same parses were
asked for. -/
structure World.Mirrors (New : Place → Prop) (p : Place) (directory : Path) (d : Place)
    (w w' : World) : Prop where
  /-- The files. -/
  files : FileSystem.Mirrors New p directory d w.files w'.files
  /-- The parses. -/
  calls : w'.calls = w.calls

section

variable {New : Place → Prop} {p d : Place} {directory : Path} {w w' : World}

/-- A change that both answer alike. -/
theorem World.Mirrors.change (h : w.Mirrors New p directory d w')
    {r r' : Except FileError FileSystem} (hmeets : Mirrors.Meets New p directory d r r') :
    (w'.change r').1 = (w.change r).1 ∧ (w.change r).2.Mirrors New p directory d (w'.change r').2 := by
  cases hmeets with
  | refused e => exact ⟨rfl, h⟩
  | changed mirrors => exact ⟨rfl, mirrors, h.calls⟩

/-- A request for files in the directory is answered alike. -/
theorem World.Mirrors.perform (h : w.Mirrors New p directory d w') (frontEnd : FrontEnd) {β : Type}
    {request : Request β} (hin : request.IsIn directory) :
    (w'.perform frontEnd request).1 = (w.perform frontEnd request).1 ∧
      (w.perform frontEnd request).2.Mirrors New p directory d
        (w'.perform frontEnd request).2 := by
  cases request with
  | «exists» path => exact ⟨h.files.exists_eq hin, h⟩
  | read path => exact ⟨h.files.read_eq hin, h⟩
  | createExclusive path => exact h.change (h.files.createExclusive hin)
  | openEmpty path => exact h.change (h.files.openEmpty hin)
  | write path content => exact h.change (h.files.write hin content)
  | replace source target => exact h.change (h.files.replace hin.1 hin.2)
  | unlinkIfThere path => exact h.change (h.files.unlinkIfThere hin)
  | makeDirectories path => exact absurd hin id
  | parse source options => exact ⟨rfl, h.files, by simp only [World.perform, h.calls]⟩
  | log line => exact ⟨rfl, h.files, h.calls⟩

/-- A program that asks for files in the directory comes to the same. -/
theorem Program.IsIn.runIn {α : Type} {program : Program α} (hin : program.IsIn directory)
    (frontEnd : FrontEnd) (h : w.Mirrors New p directory d w') :
    (program.runIn frontEnd w').1 = (program.runIn frontEnd w).1 ∧
      (program.runIn frontEnd w).2.Mirrors New p directory d (program.runIn frontEnd w').2 := by
  induction hin generalizing w w' with
  | done a => exact ⟨rfl, h⟩
  | ask isIn _ ih =>
    obtain ⟨hanswer, hperformed⟩ := h.perform frontEnd isIn
    rw [Program.runIn, Program.runIn]
    dsimp only
    rw [hanswer]
    exact ih _ hperformed

end

/-! ### What a batch asks for -/

namespace Phase

variable {b : Batch} {t : Task} {directory : Path}

/-- A phase waits for nothing but files in a directory. -/
def AsksIn (directory : Path) : Next → Prop
  | .stop _ => True
  | .ask request _ => request.IsIn directory

/-- All that a file asks for is in the directory of its artifact. -/
theorem asksIn_next (b : Batch) (h : t.artifact.IsIn directory) (phase : Phase) :
    AsksIn directory (phase.next b t) := by
  have hlock : (lockPath t.artifact).IsIn directory := h.beside (by decide)
  have htemp : (tempPath t.artifact).IsIn directory := h.beside (by decide)
  cases phase with
  | looking | rechecking => exact h
  | claiming | yielding | releasing => exact hlock
  | parsing => trivial
  | opening | writing | discarding => exact htemp
  | replacing => exact ⟨htemp, h⟩
  | finished => trivial

theorem isIn_run (b : Batch) (h : t.artifact.IsIn directory) (phase : Phase) :
    (phase.run b t).IsIn directory := by
  induction hrank : phase.rank using Nat.strong_induction_on generalizing phase with
  | _ n ih =>
    have hasks := asksIn_next b h phase
    have hfalls := falls_next b t phase
    rw [run]
    split
    · exact .done _
    · next heq =>
      rw [heq] at hasks hfalls
      refine .ask hasks fun answer => (Program.isIn_tell _).bind fun _ => ?_
      exact ih _ (hrank ▸ hfalls answer) _ rfl

end Phase

namespace Batch

variable {b : Batch} {directory : Path} {invs : List Invocation}

theorem isIn_processAll (sound : Bool) (tasks : List Task)
    (h : ∀ t ∈ tasks, t.artifact.IsIn directory) :
    (b.processAll sound tasks).IsIn directory := by
  induction tasks generalizing sound with
  | nil => exact .done _
  | cons t rest ih =>
    obtain ⟨ht, hrest⟩ := List.forall_mem_cons.1 h
    have hgo (sound : Bool) (ending : Ending) :
        (do return ending :: (← b.processAll sound rest)).IsIn directory :=
      (ih sound hrest).bind fun _ => .done _
    refine (Phase.isIn_run b ht .looking).bind fun ending => ?_
    split
    · split
      · exact .done _
      · exact hgo _ _
    · exact hgo _ _
    · exact hgo _ _

/-- All artifacts of a batch are in its output directory, if its extension is part of a name. -/
theorem isIn_of_mem_tasks (hslash : '/' ∉ b.settings.extension.toList)
    (hlength : 1 < b.settings.extension.length) {t : Task} (ht : t ∈ b.tasks directory invs) :
    t.artifact.IsIn directory := by
  obtain ⟨source, hsource⟩ := exists_artifactPath_of_mem_tasks ht
  have hne (short : String) (hshort : short.length ≤ 1) : b.settings.extension ≠ short := by
    intro heq
    rw [heq] at hlength
    omega
  rw [hsource]
  exact isIn_artifactPath source directory (hne "" (by decide)) hslash (hne "." (by decide))

/-- The part of a batch behind the making of its output directory. -/
def fill (b : Batch) (directory : Path) (invs : List Invocation) :
    Program (Except Failure BatchReport) := do
  Program.tell ((b.plans directory invs).flatMap Plan.log)
  Program.tell [.info ("Batch started (files=" ++ Number.digits (b.tasks directory invs).length
    ++ " workers=" ++ Number.ofInt b.settings.workers ++ " output_dir=" ++ directory.text ++ ")")]
  match collect (← b.processAll true (b.tasks directory invs)) with
  | .error e => return .error e
  | .ok report =>
    Program.tell [.info ("Batch finished (" ++ report.countText ++ ")")]
    return .ok report

/-- Where the output directory can be made the batch goes on behind that. -/
theorem runIn_run_of_made {frontEnd : FrontEnd} {w : World}
    (hdirectory : b.settings.outputDirectory = .ok directory)
    (hmade : (w.files.makeDirectories directory true).2 = .ok ()) :
    (b.run invs).runIn frontEnd w = (b.fill directory invs).runIn frontEnd
      { w with files := (w.files.makeDirectories directory true).1 } := by
  rw [run, hdirectory]
  dsimp only
  rw [Program.runIn_bind, Program.runIn_request]
  dsimp only [World.perform]
  rw [hmade]
  rfl

/-- Once its output directory has been made, a batch asks for nothing but files in it. -/
theorem isIn_fill (hslash : '/' ∉ b.settings.extension.toList)
    (hlength : 1 < b.settings.extension.length) (directory : Path) (invs : List Invocation) :
    (b.fill directory invs).IsIn directory := by
  refine (Program.isIn_tell _).bind fun _ => (Program.isIn_tell _).bind fun _ => ?_
  refine (isIn_processAll true _ fun t ht => isIn_of_mem_tasks hslash hlength ht).bind
    fun endings => ?_
  split
  · exact .done _
  · exact (Program.isIn_tell _).bind fun _ => .done _

/-! ### One after another -/

section

variable {New : Place → Prop} {p : Place} {w w' : World}

/-- A batch comes to the same where all that differs is aside from its output directory, and nothing
else differs afterwards. -/
theorem runIn_run_of_adds (frontEnd : FrontEnd) (invs : List Invocation)
    (hslash : '/' ∉ b.settings.extension.toList) (hlength : 1 < b.settings.extension.length)
    (h : w.Adds New p w') (htree : w.files.IsTree) (htree' : w'.files.IsTree)
    (haside : ∀ directory, b.settings.outputDirectory = .ok directory →
      w.files.Aside New p directory) :
    Failure.Alike Failure.isReported ((b.run invs).runIn frontEnd w).1
        ((b.run invs).runIn frontEnd w').1 ∧
      ((b.run invs).runIn frontEnd w).2.Adds New p ((b.run invs).runIn frontEnd w').2 := by
  -- either run stops where the other stops: before the directory, at the directory, or after it
  cases hdirectory : b.settings.outputDirectory with
  | error e =>
    rw [runIn_run_of_unnamed hdirectory, runIn_run_of_unnamed hdirectory]
    exact ⟨.inl rfl, h⟩
  | ok directory =>
    have haside := haside directory hdirectory
    obtain ⟨hadds, ⟨hmade, -⟩ | ⟨e, e', herror, herror', halike⟩⟩ :=
      h.files.makeDirectories htree htree' haside.way
    · obtain ⟨hmade', hmirrors⟩ := h.files.mirrors htree htree' haside hmade
      rw [runIn_run_of_made hdirectory hmade, runIn_run_of_made hdirectory hmade']
      have hworlds : World.Mirrors New p directory (w.files.goal directory)
          { w with files := (w.files.makeDirectories directory true).1 }
          { w' with files := (w'.files.makeDirectories directory true).1 } := ⟨hmirrors, h.calls⟩
      obtain ⟨hresult, hafter⟩ := (isIn_fill hslash hlength directory invs).runIn frontEnd hworlds
      exact ⟨.inl hresult, hafter.files.adds, hafter.calls⟩
    · rw [runIn_run_of_refused hdirectory (Prod.ext rfl herror),
        runIn_run_of_refused hdirectory (Prod.ext rfl herror')]
      refine ⟨?_, hadds, h.calls⟩
      rcases halike with rfl | hsystem
      · exact .inl rfl
      · exact .inr ⟨.file e, .file e', rfl, rfl, hsystem⟩

end

end Batch

/-! ### Any number at once -/

section

variable {b : Batch} {New : Place → Prop} {p d : Place} {directory : Path} {w w' : World}

/-- A worker that can take a step on one of two related worlds can take it on the other, with the
same answers, and then they are still related. -/
def Worker.Keeps (R : World → World → Prop) (v : Worker) : Prop :=
  ∀ w w', R w w' → ∀ frontEnd v₁ w₁, v.step frontEnd w = some (v₁, w₁) →
    ∃ w₁', v.step frontEnd w' = some (v₁, w₁') ∧ R w₁ w₁'

/-- A worker whose artifact is in the directory takes the same step on both worlds. -/
theorem Worker.step_mirrored {v : Worker} (hin : v.artifact.IsIn directory)
    (h : w.Mirrors New p directory d w') (frontEnd : FrontEnd) :
    (v.step frontEnd w = none ∧ v.step frontEnd w' = none) ∨
      ∃ v₁ w₁ w₁', v.step frontEnd w = some (v₁, w₁) ∧ v.step frontEnd w' = some (v₁, w₁') ∧
        w₁.Mirrors New p directory d w₁' := by
  have hasks := Phase.asksIn_next v.batch hin v.phase
  cases hnext : v.phase.next v.batch v.task with
  | stop ending =>
    left
    rw [step, step, hnext]
    exact ⟨rfl, rfl⟩
  | ask request resume =>
    right
    rw [hnext] at hasks
    obtain ⟨hanswer, hperformed⟩ := h.perform frontEnd hasks
    have hstep' := step_of_next frontEnd w' hnext
    rw [hanswer] at hstep'
    exact ⟨_, _, _, step_of_next frontEnd w hnext, hstep', hperformed.files, hperformed.calls⟩

theorem Worker.keeps_mirrors {v : Worker} (hin : v.artifact.IsIn directory) :
    v.Keeps (World.Mirrors New p directory d) := by
  intro w w' hworlds frontEnd v₁ w₁ hstep
  rcases step_mirrored hin hworlds frontEnd with ⟨hnone, -⟩ | ⟨v₂, w₂, w₂', hstep', hother, hkept⟩
  · rw [hnone] at hstep
    exact absurd hstep (by simp)
  · obtain ⟨rfl, rfl⟩ := Prod.mk.inj (Option.some.inj (hstep.symm.trans hstep'))
    exact ⟨w₂', hother, hkept⟩

theorem Worker.keeps_mirrors_flip {v : Worker} (hin : v.artifact.IsIn directory) :
    v.Keeps (flip (World.Mirrors New p directory d)) := by
  intro w' w hworlds frontEnd v₁ w₁ hstep
  rcases step_mirrored hin hworlds frontEnd with ⟨-, hnone⟩ | ⟨v₂, w₂, w₂', hother, hstep', hkept⟩
  · rw [hnone] at hstep
    exact absurd hstep (by simp)
  · obtain ⟨rfl, rfl⟩ := Prod.mk.inj (Option.some.inj (hstep.symm.trans hstep'))
    exact ⟨w₂, hother, hkept⟩

/-- What happens in a pool on one world can happen on a related one. -/
theorem Pool.Step.exists_kept {R : World → World → Prop} {q q' : Pool} (hstep : Step b q q')
    (hkeeps : ∀ v, .taken v ∈ q.jobs → v.Keeps R) (hworld : R q.world w') :
    ∃ w₁', Step b ⟨w', q.jobs⟩ ⟨w₁', q'.jobs⟩ ∧ R q'.world w₁' := by
  cases hstep with
  | take first free => exact ⟨w', .take first free, hworld⟩
  | act step =>
    obtain ⟨w₁', hstep', hworld'⟩ := hkeeps _ (by simp) _ _ hworld _ _ _ step
    exact ⟨w₁', .act hstep', hworld'⟩
  | cancel stops => exact ⟨w', .cancel stops, hworld⟩

/-- Every way that the pool of a batch may go on one world it may go on a related one. -/
theorem Batch.exists_reaches_kept {R : World → World → Prop} {invs : List Invocation} {q : Pool}
    (hkeeps : ∀ v : Worker, v.task ∈ b.tasks directory invs → v.Keeps R)
    (hworld : R (b.pool directory invs w).world (b.pool directory invs w').world)
    (hreach : Pool.Reaches b (b.pool directory invs w) q) :
    ∃ w₁', Pool.Reaches b (b.pool directory invs w') ⟨w₁', q.jobs⟩ ∧ R q.world w₁' := by
  induction hreach with
  | refl => exact ⟨_, .refl, hworld⟩
  | tail hreach hstep ih =>
    obtain ⟨w₁, hreach', hrelated⟩ := ih
    obtain ⟨w₂, hstep', hrelated'⟩ :=
      hstep.exists_kept (fun v hv => hkeeps v (mem_tasks_of_reaches hreach hv)) hrelated
    exact ⟨w₂, hreach'.tail hstep', hrelated'⟩

/-- However the pool of a batch goes on one of two worlds, it may go so on the other, if all that
differs is aside from the output directory. -/
theorem Batch.exists_reaches_of_adds {invs : List Invocation}
    (hslash : '/' ∉ b.settings.extension.toList) (hlength : 1 < b.settings.extension.length)
    (h : w.Adds New p w') (htree : w.files.IsTree) (htree' : w'.files.IsTree)
    (haside : w.files.Aside New p directory)
    (hmade : (w.files.makeDirectories directory true).2 = .ok ()) :
    (w'.files.makeDirectories directory true).2 = .ok () ∧
    (∀ q, Pool.Reaches b (b.pool directory invs w) q →
      ∃ w₁', Pool.Reaches b (b.pool directory invs w') ⟨w₁', q.jobs⟩ ∧ q.world.Adds New p w₁') ∧
    (∀ q', Pool.Reaches b (b.pool directory invs w') q' →
      ∃ w₁, Pool.Reaches b (b.pool directory invs w) ⟨w₁, q'.jobs⟩ ∧ w₁.Adds New p q'.world) := by
  have hin (v : Worker) (hv : v.task ∈ b.tasks directory invs) : v.artifact.IsIn directory :=
    isIn_of_mem_tasks hslash hlength hv
  obtain ⟨hmade', hmirrors⟩ := h.files.mirrors htree htree' haside hmade
  have hworld : (b.pool directory invs w).world.Mirrors New p directory (w.files.goal directory)
      (b.pool directory invs w').world := ⟨hmirrors, h.calls⟩
  refine ⟨hmade', fun q hreach => ?_, fun q' hreach => ?_⟩
  · obtain ⟨w₁', hreach', hkept⟩ :=
      exists_reaches_kept (fun v hv => Worker.keeps_mirrors (hin v hv)) hworld hreach
    exact ⟨w₁', hreach', hkept.files.adds, hkept.calls⟩
  · obtain ⟨w₁, hreach', hkept⟩ :=
      exists_reaches_kept (fun v hv => Worker.keeps_mirrors_flip (hin v hv)) hworld hreach
    exact ⟨w₁, hreach', hkept.files.adds, hkept.calls⟩

end

end DeclGraph
