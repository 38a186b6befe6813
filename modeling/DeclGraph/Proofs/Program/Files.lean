import DeclGraph.Program.World

/-!
# Programs and files

What a program comes to depends on the files that it finds, and on nothing else that has happened in
its world (`Program.runIn_of_files`).  Each answer does (`World.perform_of_files`), and a program is
its requests and what it makes of the answers.
-/

namespace DeclGraph

variable (frontEnd : FrontEnd) {w w' : World}

/-- Whether a change is refused, and the files behind it, depend on the change and the files. -/
theorem World.change_of_files (h : w'.files = w.files) (result : Except FileError FileSystem) :
    (w'.change result).1 = (w.change result).1 ∧
      (w'.change result).2.files = (w.change result).2.files := by
  cases result with
  | ok files => exact ⟨rfl, rfl⟩
  | error e => exact ⟨rfl, h⟩

/-- A request is answered alike where the files are the same, and they are the same behind it. -/
theorem World.perform_of_files (h : w'.files = w.files) {β : Type} (request : Request β) :
    (w'.perform frontEnd request).1 = (w.perform frontEnd request).1 ∧
      (w'.perform frontEnd request).2.files = (w.perform frontEnd request).2.files := by
  cases request <;> simp only [World.perform, h, World.change_of_files h, and_self]

/-- A program comes to the same where the files are the same, and leaves the same files. -/
theorem Program.runIn_of_files {α : Type} (program : Program α) (h : w'.files = w.files) :
    (program.runIn frontEnd w').1 = (program.runIn frontEnd w).1 ∧
      (program.runIn frontEnd w').2.files = (program.runIn frontEnd w).2.files := by
  induction program generalizing w w' with
  | done a => exact ⟨rfl, h⟩
  | ask request next ih =>
    obtain ⟨hanswer, hfiles⟩ := World.perform_of_files frontEnd h request
    unfold runIn
    dsimp only
    rw [hanswer]
    exact ih _ hfiles

end DeclGraph
