import DeclGraph.Proofs.Batch.Artifact
import DeclGraph.Proofs.Batch.Schedule
import DeclGraph.Proofs.Batch.Escape

/-!
# The order of tasks does not matter

Two lists of invocations may give a batch the same tasks in different orders.  If the tasks keep
apart (`Batch.KeepsApart`), each comes to what it comes to alone, whichever of them were handled
before it.  So the batch gives a report for both lists or for none, the outcomes are the same in
another order, and the files left are the same (`Batch.exists_run_of_perm`).

For tasks to keep apart it is enough that their artifacts have different paths, of which none is
that of a lock or of a file that an artifact is written to first (`Batch.keepsApart_of_paths`).
-/

namespace DeclGraph

open FileSystem

theorem Task.Disjoint.symm {fs : FileSystem} {t u : Task} (h : t.Disjoint fs u) :
    u.Disjoint fs t :=
  fun q howns howns' => h q howns' howns

namespace Batch

variable {b : Batch} {directory : Path} {invs invs' : List Invocation} {w : World} {p p' : Pool}
  {frontEnd : FrontEnd} {report report' : BatchReport} {fs : FileSystem}

/-- The artifacts of different tasks have different paths, and their paths, those of the locks and
those of the files written first lead to different places. -/
structure KeepsApart (b : Batch) (directory : Path) (invs : List Invocation) (fs : FileSystem) :
    Prop where
  /-- No two tasks have one artifact. -/
  artifacts : ((b.tasks directory invs).map Task.artifact).Nodup
  /-- No two tasks have a place in common. -/
  places : (b.tasks directory invs).Pairwise (Task.Disjoint fs)

namespace KeepsApart

theorem nodup_tasks (h : b.KeepsApart directory invs fs) : (b.tasks directory invs).Nodup :=
  .of_map _ h.artifacts

theorem of_perm (h : b.KeepsApart directory invs fs)
    (hperm : (b.tasks directory invs').Perm (b.tasks directory invs)) :
    b.KeepsApart directory invs' fs := by
  constructor
  · exact (hperm.map Task.artifact).nodup_iff.2 h.artifacts
  · exact (hperm.pairwise_iff Task.Disjoint.symm).2 h.places

end KeepsApart

/-- Artifacts with different paths keep apart in every file system, if they stand in the output
directory and none has the path of a lock or of a file that an artifact is written to first. -/
theorem keepsApart_of_paths (hempty : b.settings.extension ≠ "")
    (hslash : '/' ∉ b.settings.extension.toList) (hpoint : b.settings.extension ≠ ".")
    (hartifacts : ((b.tasks directory invs).map Task.artifact).Nodup)
    (hbeside : ∀ t ∈ b.tasks directory invs, ∀ u ∈ b.tasks directory invs,
      t.artifact ≠ lockPath u.artifact ∧ t.artifact ≠ tempPath u.artifact) (fs : FileSystem) :
    b.KeepsApart directory invs fs := by
  refine ⟨hartifacts, ?_⟩
  -- an artifact is its name in the output directory, so that its path is its name
  have hin {t : Task} (ht : t ∈ b.tasks directory invs) : ∃ name, name ≠ ".." ∧
      t.artifact = ⟨directory.root, directory.names ++ [name]⟩ := by
    obtain ⟨source, hsource⟩ := exists_artifactPath_of_mem_tasks ht
    rw [hsource]
    exact isIn_artifactPath source directory hempty hslash hpoint
  refine (List.pairwise_map.1 hartifacts).imp_of_mem fun {t u} ht hu hne => ?_
  have hlock := (hbeside t ht u hu).1
  have htemp := (hbeside t ht u hu).2
  have hlock' := (hbeside u hu t ht).1
  have htemp' := (hbeside u hu t ht).2
  obtain ⟨name, hup, hname⟩ := hin ht
  obtain ⟨name', hup', hname'⟩ := hin hu
  have hlast (n : String) : (Path.mk directory.root (directory.names ++ [n])).name = n :=
    List.getLastD_concat
  have hnext (n suffix : String) : (Path.mk directory.root (directory.names ++ [n])).beside suffix
      = ⟨directory.root, directory.names ++ [n ++ suffix]⟩ := by
    rw [Path.beside, hlast, List.dropLast_concat]
  simp only [hname, hname', lockPath, tempPath, hnext, ne_eq, Path.mk.injEq, true_and,
    List.append_cancel_left_eq, List.cons.injEq, and_true] at hne hlock htemp hlock' htemp'
  refine disjoint_of_name_ne ?_ ?_ ?_ ?_ ?_ ⟨?_, ?_⟩ ⟨?_, ?_⟩
  · simp [hname]
  · simp [hname']
  · rwa [hname, hlast]
  · rwa [hname', hlast]
  · rwa [hname, hname', hlast, hlast]
  · rwa [hname, hname', hlast, hlast]
  · rwa [hname, hname', hlast, hlast]
  · rwa [hname, hname', hlast, hlast]
  · rwa [hname, hname', hlast, hlast]

/-- Artifacts with different paths keep apart if their extension is a name without points, and
neither that of locks nor that of the files written first. -/
theorem keepsApart_of_extension (hempty : b.settings.extension ≠ "")
    (hslash : '/' ∉ b.settings.extension.toList) (hpoint : '.' ∉ b.settings.extension.toList)
    (hlock : b.settings.extension ≠ "lock") (htemp : b.settings.extension ≠ "tmp")
    (hartifacts : ((b.tasks directory invs).map Task.artifact).Nodup) (fs : FileSystem) :
    b.KeepsApart directory invs fs := by
  refine keepsApart_of_paths hempty hslash (fun heq => hpoint ?_) hartifacts ?_ fs
  · rw [heq]
    decide
  · intro t ht u hu
    have hapart := apart_of_extension hempty hslash hpoint hlock htemp t ht u hu
    constructor
    · intro heq
      exact hapart.lock (heq ▸ name_beside u.artifact ".lock")
    · intro heq
      exact hapart.temp (heq ▸ name_beside u.artifact ".tmp")

/-! ### Tasks in another order -/

section

variable (htree : w.files.IsTree)
  (happart : b.KeepsApart directory invs (b.pool directory invs w).files)
  (hperm : (b.tasks directory invs').Perm (b.tasks directory invs))

include htree happart hperm

/-- If a pool comes to a report then so does every pool with the same tasks, whose outcomes are the
same in the order of its tasks, and which leaves the same files. -/
theorem exists_result_of_perm (hreach : Pool.Reaches b (b.pool directory invs w) p)
    (hover : p.IsOver) (hanswered : p.AnsweredBy frontEnd) (hreport : p.result = .ok report)
    (hreach' : Pool.Reaches b (b.pool directory invs' w) p') (hover' : p'.IsOver)
    (hanswered' : p'.AnsweredBy frontEnd) :
    ∃ report', p'.result = .ok report' ∧ report'.outcomes.Perm report.outcomes ∧
      p.files.Same p'.files := by
  have hplaces' := (happart.of_perm hperm).places
  have hended := Pool.map_ending?_of_result hreach (not_cancelled_mem_pool b directory invs w) hover
    hreport
  have hgood : ∀ job ∈ p.jobs, ∀ e, job.ending? ≠ some (.error e) := by
    intro job hjob e hfailed
    have hmem := List.mem_map_of_mem (f := Job.ending?) hjob
    rw [hended, hfailed] at hmem
    simp at hmem
  have hgood' := ne_error_of_subset htree happart.places hreach hover hanswered hgood hperm.subset
    hplaces' hreach' hanswered'
  obtain ⟨report', hreport'⟩ := Pool.exists_result hgood'
  refine ⟨report', hreport', ?_, same_of_mem_iff htree happart.places hreach hover hanswered hgood
    (fun t => hperm.mem_iff) hplaces' hreach' hover' hanswered' hgood'⟩
  -- the outcomes are those of the tasks alone, and the tasks are the same in another order
  have hended' := Pool.map_ending?_of_result hreach' (not_cancelled_mem_pool b directory invs' w)
    hover' hreport'
  rw [map_ending?_of_isOver htree happart.places hreach hover hanswered hgood] at hended
  rw [map_ending?_of_isOver htree hplaces' hreach' hover' hanswered' hgood'] at hended'
  simp only [(alone_pool invs invs' w _).1] at hended'
  have hendings := hperm.map fun t =>
    some (b.alone frontEnd (b.pool directory invs w).world t).1
  rw [hended, hended'] at hendings
  have houtcomes := hendings.filterMap fun ending? => ending?.bind Except.toOption
  simpa [List.filterMap_map, Function.comp_def, Except.toOption] using houtcomes

/-- A batch that gives a report does so for other invocations with the same tasks, in whatever
order: the outcomes are the same in that order, and the files left are the same. -/
theorem exists_run_of_perm (hworkers : 0 < b.settings.workers)
    (hdirectory : b.settings.outputDirectory = .ok directory)
    (hreport : ((b.run invs).runIn frontEnd w).1 = .ok report) :
    ∃ report', ((b.run invs').runIn frontEnd w).1 = .ok report' ∧
      report'.outcomes.Perm report.outcomes ∧
      ((b.run invs).runIn frontEnd w).2.files.Same ((b.run invs').runIn frontEnd w).2.files := by
  have hmake : (w.files.makeDirectories directory true).2 = .ok () := by
    rcases hmade : w.files.makeDirectories directory true with ⟨files, e | u⟩
    · rw [runIn_run_of_refused hdirectory hmade] at hreport
      exact absurd hreport (by simp)
    · rfl
  obtain ⟨p, hreach, hover, hanswered, hfiles, hresult⟩ :=
    exists_reaches_result invs frontEnd hworkers hdirectory hmake
  obtain ⟨p', hreach', hover', hanswered', hfiles', hresult'⟩ :=
    exists_reaches_result invs' frontEnd hworkers hdirectory hmake
  rw [← hfiles, ← hfiles', ← hresult']
  exact exists_result_of_perm htree happart hperm hreach hover hanswered
    (hresult.trans hreport) hreach' hover' hanswered'

end

end Batch

end DeclGraph
