import DeclGraph.Invocation.File
import DeclGraph.Proofs.Invocation.Document
import DeclGraph.Proofs.Program.TextFile

/-!
# Files of invocations are read back

`Invocation.load` changes nothing but the log, and what it reads depends on the files alone
(`Invocation.runIn_load`): it is `FileSystem.invocations`.  A file whose text is the document of
invocations reads as these (`FileSystem.invocations_of_text`).  The file that `Invocation.store`
writes is therefore read as the invocations that were stored (`Invocation.load_of_store`): every
text, the order of the named settings and the settings without values survive.
-/

namespace DeclGraph

namespace FileSystem

/-- The invocations of a file. -/
def invocations (fs : FileSystem) (path : Path) : Except Failure (List Invocation) :=
  match fs.text path with
  | .error e => .error e
  | .ok text => (Invocation.listOfText text).mapError .ofDocument

/-- A document of invocations reads as these. -/
theorem invocations_of_text {fs : FileSystem} {path : Path} {invs : List Invocation}
    (hdistinct : ∀ inv ∈ invs, inv.IsDistinct)
    (h : fs.text path = .ok (Invocation.listToText invs)) : fs.invocations path = .ok invs := by
  rw [invocations, h]
  dsimp only
  rw [Invocation.listOfText_listToText hdistinct]
  rfl

end FileSystem

namespace Invocation

variable (frontEnd : FrontEnd) (w : World)

theorem runIn_load (path : Path) : ∃ log,
    (load path).runIn frontEnd w = (w.files.invocations path, { w with log := log }) := by
  simp only [load, FileSystem.invocations, Program.runIn_bind, TextFile.runIn_read]
  cases w.files.text path with
  | error e => exact ⟨w.log, rfl⟩
  | ok text =>
    dsimp only
    cases Invocation.listOfText text with
    | error e => exact ⟨w.log, rfl⟩
    | ok invs =>
      simp only [Program.runIn_bind, Program.runIn_tell, Program.runIn_pure]
      exact ⟨_, rfl⟩

variable {frontEnd w} {path : Path} {invs : List Invocation}

/-- The invocations that were stored in a file are loaded from it, with everything they hold and in
the order in which they hold it. -/
theorem load_of_store (hdistinct : ∀ inv ∈ invs, inv.IsDistinct) {w' : World}
    (h : (store invs path).runIn frontEnd w = (.ok (), w')) :
    ((load path).runIn frontEnd w').1 = .ok invs := by
  rw [store, TextFile.runIn_write] at h
  obtain ⟨hwritten, rfl⟩ := Prod.mk.inj h
  have htext := FileSystem.text_of_writeText (return_notMem_listToText hdistinct) hwritten
  obtain ⟨log, hload⟩ := runIn_load frontEnd
    { w with files := (w.files.writeText path (listToText invs)).1 } path
  rw [hload]
  exact FileSystem.invocations_of_text hdistinct htext

/-- An invocation with quotes, controls, a carriage return, characters above `FFFF`, a setting
without a value and no warnings. -/
def awkward : Invocation where
  compiler := "c\"l\\\x01\r\n"
  includes := []
  inputs := ["é\uFEFF\t", "𝄞\x7f.c"]
  flags := [""]
  conformance := []
  defines := [("Z", none), ("", some "1"), ("A", some "\x08\x0c/")]
  files := [("obj", some "null")]
  warnings := []

/-- The awkward invocation comes back from a file in an empty directory. -/
theorem load_of_store_awkward :
    ∃ w', (∀ inv ∈ [awkward, awkward], inv.IsDistinct) ∧
      (store [awkward, awkward] ⟨.relative, ["cl", "batch.json"]⟩).runIn (fun _ _ => default)
        World.fresh = (.ok (), w') ∧
      ((load ⟨.relative, ["cl", "batch.json"]⟩).runIn (fun _ _ => default) w').1
        = .ok [awkward, awkward] := by
  have hdistinct : ∀ inv ∈ [awkward, awkward], inv.IsDistinct := by
    have h : awkward.IsDistinct := ⟨by decide, by decide, by decide⟩
    exact List.forall_mem_cons.2 ⟨h, List.forall_mem_singleton.2 h⟩
  have hstored : ((store [awkward, awkward] ⟨.relative, ["cl", "batch.json"]⟩).runIn
      (fun _ _ => default) World.fresh).1 = .ok () := by decide +kernel
  have hstore : (store [awkward, awkward] ⟨.relative, ["cl", "batch.json"]⟩).runIn
      (fun _ _ => default) World.fresh
      = (.ok (), ((store [awkward, awkward] ⟨.relative, ["cl", "batch.json"]⟩).runIn
          (fun _ _ => default) World.fresh).2) := Prod.ext hstored rfl
  exact ⟨_, hdistinct, hstore, load_of_store hdistinct hstore⟩

end Invocation

end DeclGraph
