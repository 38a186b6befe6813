import DeclGraph.Proofs.Batch.Reordering
import DeclGraph.Proofs.Invocation.Split

/-!
# The tasks of split invocations

A task is made of an input and of the settings that it has, and of nothing else that its invocation
says (`Batch.tasks_eq`).  Splitting leaves every input its settings, so it leaves the tasks
(`Batch.mem_tasks_split`); only an input that an invocation has twice makes one task less
(`Batch.perm_tasks_split`), and there is none where no two artifacts have one path
(`Batch.perm_tasks_split_of_nodup`).
-/

namespace DeclGraph

namespace Batch

variable {b : Batch} {directory : Path} {invs : List Invocation} {targets : List String} {t : Task}

/-- What the parse of an input is told, by the settings of the input. -/
def optionsOf (b : Batch) (settings : Invocation) : ParseOptions :=
  .ofInvocation (settings.rebase b.settings.sourceDirectory) b.profile

/-- The tasks of invocations are those of their inputs with the settings that these have. -/
theorem tasks_eq (b : Batch) (directory : Path) (invs : List Invocation) :
    b.tasks directory invs = (Invocation.sourced invs).filterMap fun p =>
      (b.plan directory (b.optionsOf p.1) p.2).task? := by
  -- the inputs of an invocation are no part of what its parses are told
  have hoptions (inv : Invocation) : b.optionsOf inv.settings
      = .ofInvocation (inv.rebase b.settings.sourceDirectory) b.profile := rfl
  simp only [tasks, plans, plansOf, Invocation.sourced, List.filterMap_flatMap, List.filterMap_map,
    Function.comp_def, hoptions]

/-- Splitting makes no task and loses none. -/
theorem mem_tasks_split :
    t ∈ b.tasks directory (Invocation.split invs targets) ↔ t ∈ b.tasks directory invs := by
  simp only [tasks_eq, List.mem_filterMap, Invocation.mem_sourced_split]

/-- Each task is there as often as before, if no invocation has a target twice. -/
theorem perm_tasks_split
    (h : ∀ inv ∈ invs, ∀ target ∈ targets, inv.inputs.count target ≤ 1) :
    (b.tasks directory (Invocation.split invs targets)).Perm (b.tasks directory invs) := by
  rw [tasks_eq, tasks_eq]
  exact (Invocation.perm_sourced_split h).filterMap _

/-- Each task is there as often as before, if all of them differ. -/
theorem perm_tasks_split_of_nodup (h : (b.tasks directory invs).Nodup) :
    (b.tasks directory (Invocation.split invs targets)).Perm (b.tasks directory invs) := by
  have hsplit : (b.tasks directory (Invocation.split invs targets)).Nodup := by
    obtain ⟨kept, hkept, hsub⟩ := Invocation.subperm_sourced_split invs targets
    rw [tasks_eq] at h ⊢
    exact (hkept.filterMap _).nodup_iff.1 ((hsub.filterMap _).nodup h)
  rw [List.perm_ext_iff_of_nodup hsplit h]
  intro t
  exact mem_tasks_split

end Batch

end DeclGraph
