import DeclGraph.Proofs.FileSystem.Route

/-!
# The same files in a directory

A path is in a directory if it has one name more (`Path.IsIn`).  Where two file systems differ in
other places only, and the path of the directory leads to the same one in both
(`FileSystem.Mirrors`), such a path is located alike in both (`FileSystem.Mirrors.locate`).  So every
question has the same answer, and every change is made in both or refused in both in the same words
(`FileSystem.Mirrors.Meets`).
-/

namespace DeclGraph

/-- A path is in a directory: it has one name more, which does not lead upwards. -/
def Path.IsIn (path directory : Path) : Prop :=
  ∃ name, name ≠ ".." ∧ path = ⟨directory.root, directory.names ++ [name]⟩

namespace FileSystem

variable {fs fs' : FileSystem} {path target directory : Path} {p d : Place} {New : Place → Prop}

/-- A walk to a directory leads there as long as directories are kept. -/
theorem KeepsDirectories.walk_directory (h : KeepsDirectories fs fs') {here : Place}
    {names : List String} (hwalk : fs.walk here names = .ok (d, some .directory)) :
    fs'.walk here names = .ok (d, some .directory) := by
  have hentry := walk_entry hwalk
  rw [hentry] at hwalk
  rw [h.walk hwalk, h.keeps d hentry.symm]

/-- One file system has directories more than another one and differs at a place besides, but a
directory is in both, with the same in it. -/
structure Mirrors (New : Place → Prop) (p : Place) (directory : Path) (d : Place)
    (fs fs' : FileSystem) : Prop where
  /-- What differs. -/
  adds : Adds New p fs fs'
  /-- The directory is in the one. -/
  walk : fs.walk (fs.startOf directory) directory.names = .ok (d, some .directory)
  /-- The directory is in the other. -/
  walk' : fs'.walk (fs.startOf directory) directory.names = .ok (d, some .directory)
  /-- Nothing in it differs. -/
  apart : ∀ name, d ++ [name] ≠ p ∧ ¬ New (d ++ [name])

namespace Mirrors

variable (h : Mirrors New p directory d fs fs')

include h

theorem get?_eq (name : String) : fs'.get? (d ++ [name]) = fs.get? (d ++ [name]) :=
  h.adds.same _ (h.apart name).1 (h.apart name).2

/-- A path in the directory is refused in both in the same words, or it leads into the directory. -/
theorem locate (hpath : path.IsIn directory) :
    (∃ e, fs.locate path = .error e ∧ fs'.locate path = .error e) ∨
      ∃ name, fs.locate path = .ok (d ++ [name], fs.get? (d ++ [name])) ∧
        fs'.locate path = .ok (d ++ [name], fs.get? (d ++ [name])) := by
  obtain ⟨name, hup, rfl⟩ := hpath
  rcases locate_eq ⟨directory.root, directory.names ++ [name]⟩ with ⟨e, -, hlocate⟩ | hlocate
  · exact .inl ⟨e, hlocate fs, hlocate fs'⟩
  · have hstart : fs.startOf ⟨directory.root, directory.names ++ [name]⟩ = fs.startOf directory :=
      rfl
    have hd : fs.get? d = some .directory := (walk_entry h.walk).symm
    have hd' : fs'.get? d = some .directory := (walk_entry h.walk').symm
    rw [hlocate, hlocate, h.adds.startOf_eq, hstart, walk_append h.walk, walk_append h.walk',
      walk_singleton, walk_singleton, if_neg (not_not.2 hd), if_neg (not_not.2 hd'), if_neg hup,
      if_neg hup, h.get?_eq name]
    split_ifs
    · exact .inl ⟨_, rfl, rfl⟩
    · exact .inr ⟨name, rfl, rfl⟩

/-! ### Questions -/

theorem exists_eq (hpath : path.IsIn directory) : fs'.exists path = fs.exists path := by
  unfold «exists»
  rcases h.locate hpath with ⟨e, hlocate, hlocate'⟩ | ⟨name, hlocate, hlocate'⟩
  · rw [hlocate, hlocate']
  · rw [hlocate, hlocate']

theorem read_eq (hpath : path.IsIn directory) : fs'.read path = fs.read path := by
  unfold read
  rcases h.locate hpath with ⟨e, hlocate, hlocate'⟩ | ⟨name, hlocate, hlocate'⟩
  · rw [hlocate, hlocate']
  · rw [hlocate, hlocate']

/-! ### Changes -/

/-- A file that is put in the directory. -/
theorem put {name : String} (hfile : fs.get? (d ++ [name]) ≠ some .directory)
    (content : List UInt8) :
    Mirrors New p directory d (fs.put (d ++ [name]) (.file content))
      (fs'.put (d ++ [name]) (.file content)) := by
  have hfile' : fs'.get? (d ++ [name]) ≠ some .directory := by rwa [h.get?_eq]
  exact ⟨h.adds.put (by simp) (h.apart name).2 _,
    (sameDirectories_put hfile content).keepsDirectories.walk_directory h.walk,
    (sameDirectories_put hfile' content).keepsDirectories.walk_directory h.walk', h.apart⟩

/-- A file that is removed from the directory. -/
theorem remove (name : String) (hfile : fs.get? (d ++ [name]) ≠ some .directory) :
    Mirrors New p directory d (fs.remove (d ++ [name])) (fs'.remove (d ++ [name])) := by
  have hfile' : fs'.get? (d ++ [name]) ≠ some .directory := by rwa [h.get?_eq]
  exact ⟨h.adds.remove (by simp) (h.apart name).2,
    (sameDirectories_remove hfile).keepsDirectories.walk_directory h.walk,
    (sameDirectories_remove hfile').keepsDirectories.walk_directory h.walk', h.apart⟩

omit h in
/-- Two file systems answer a change alike: both refuse it in the same words, or both show the same
afterwards. -/
inductive Meets (New : Place → Prop) (p : Place) (directory : Path) (d : Place) :
    Except FileError FileSystem → Except FileError FileSystem → Prop
  /-- Both refuse. -/
  | refused (e : FileError) : Meets New p directory d (.error e) (.error e)
  /-- Both change. -/
  | changed {fs fs' : FileSystem} (mirrors : Mirrors New p directory d fs fs') :
    Meets New p directory d (.ok fs) (.ok fs')

theorem createExclusive (hpath : path.IsIn directory) :
    Meets New p directory d (fs.createExclusive path) (fs'.createExclusive path) := by
  unfold FileSystem.createExclusive
  rcases h.locate hpath with ⟨e, hlocate, hlocate'⟩ | ⟨name, hlocate, hlocate'⟩
  · rw [hlocate, hlocate']
    exact .refused e
  · rw [hlocate, hlocate']
    cases hentry : fs.get? (d ++ [name]) with
    | none => exact .changed (h.put (by rw [hentry]; simp) [])
    | some e => exact .refused _

theorem openEmpty (hpath : path.IsIn directory) :
    Meets New p directory d (fs.openEmpty path) (fs'.openEmpty path) := by
  unfold FileSystem.openEmpty
  rcases h.locate hpath with ⟨e, hlocate, hlocate'⟩ | ⟨name, hlocate, hlocate'⟩
  · rw [hlocate, hlocate']
    exact .refused e
  · rw [hlocate, hlocate']
    cases hentry : fs.get? (d ++ [name]) with
    | none => exact .changed (h.put (by rw [hentry]; simp) [])
    | some e =>
      cases e with
      | directory => exact .refused _
      | file content => exact .changed (h.put (by rw [hentry]; simp) [])

theorem write (hpath : path.IsIn directory) (content : List UInt8) :
    Meets New p directory d (fs.write path content) (fs'.write path content) := by
  unfold FileSystem.write
  rcases h.locate hpath with ⟨e, hlocate, hlocate'⟩ | ⟨name, hlocate, hlocate'⟩
  · rw [hlocate, hlocate']
    exact .refused e
  · rw [hlocate, hlocate']
    cases hentry : fs.get? (d ++ [name]) with
    | none => exact .changed (h.put (by rw [hentry]; simp) content)
    | some e =>
      cases e with
      | directory => exact .refused _
      | file old => exact .changed (h.put (by rw [hentry]; simp) content)

theorem unlinkIfThere (hpath : path.IsIn directory) :
    Meets New p directory d (fs.unlinkIfThere path) (fs'.unlinkIfThere path) := by
  unfold FileSystem.unlinkIfThere unlink
  rcases h.locate hpath with ⟨e, hlocate, hlocate'⟩ | ⟨name, hlocate, hlocate'⟩
  · rw [hlocate, hlocate']
    dsimp only
    split
    · exact .changed h
    · exact .refused e
  · rw [hlocate, hlocate']
    cases hentry : fs.get? (d ++ [name]) with
    | none => exact .changed h
    | some e =>
      cases e with
      | directory => exact .refused _
      | file content => exact .changed (h.remove name (by rw [hentry]; simp))

theorem replace (hpath : path.IsIn directory) (htarget : target.IsIn directory) :
    Meets New p directory d (fs.replace path target) (fs'.replace path target) := by
  unfold FileSystem.replace
  rcases h.locate hpath with ⟨e, hlocate, hlocate'⟩ | ⟨name, hlocate, hlocate'⟩
  · rw [hlocate, hlocate']
    cases e <;> exact .refused _
  · rw [hlocate, hlocate']
    cases hentry : fs.get? (d ++ [name]) with
    | none => exact .refused _
    | some e =>
      cases e with
      | directory => exact .refused _
      | file content =>
        have hremoved := h.remove name (by rw [hentry]; simp)
        dsimp only
        rcases h.locate htarget with ⟨e, hgoal, hgoal'⟩ | ⟨goal, hgoal, hgoal'⟩
        · rw [hgoal, hgoal']
          cases e <;> exact .refused _
        · rw [hgoal, hgoal']
          -- what goes away first does not turn the target into a directory
          have hmoves (hfile : fs.get? (d ++ [goal]) ≠ some .directory) :
              (fs.remove (d ++ [name])).get? (d ++ [goal]) ≠ some .directory := by
            rw [get?_remove (by simp)]
            split_ifs
            · simp
            · exact hfile
          cases hthere : fs.get? (d ++ [goal]) with
          | none => exact .changed (hremoved.put (hmoves (by rw [hthere]; simp)) content)
          | some e =>
            cases e with
            | directory => exact .refused _
            | file old => exact .changed (hremoved.put (hmoves (by rw [hthere]; simp)) content)

end Mirrors

/-- A place and new directories are aside from a directory: the place is not on the way to it, and
none of them is in it. -/
structure Aside (fs : FileSystem) (New : Place → Prop) (p : Place) (directory : Path) : Prop where
  /-- The place is not on the way. -/
  way : p ∉ fs.stops directory
  /-- Nothing of it is in the directory. -/
  apart : ∀ name, fs.goal directory ++ [name] ≠ p ∧ ¬ New (fs.goal directory ++ [name])

/-- Where a directory can be made in one file system it can be made in the other, and then they show
the same in it, if all that differs is aside. -/
theorem Adds.mirrors (h : Adds New p fs fs') (htree : fs.IsTree) (htree' : fs'.IsTree)
    (haside : fs.Aside New p directory)
    (hmade : (fs.makeDirectories directory true).2 = .ok ()) :
    (fs'.makeDirectories directory true).2 = .ok () ∧
      Mirrors New p directory (fs.goal directory) (fs.makeDirectories directory true).1
        (fs'.makeDirectories directory true).1 := by
  obtain ⟨hadds, ⟨-, hmade'⟩ | ⟨e, e', herror, -⟩⟩ := h.makeDirectories htree htree' haside.way
  · have hstart : (fs.makeDirectories directory true).1.startOf directory
        = fs.startOf directory := by
      rw [startOf, startOf, (makeDirectories_grows fs directory true).workingDirectory]
    have hgoal : fs'.goal directory = fs.goal directory := by rw [goal, goal, h.startOf_eq]
    refine ⟨hmade', hadds, ?_, ?_, haside.apart⟩
    · rw [hstart]
      exact walk_of_makeDirectories htree hmade
    · rw [hstart, ← hgoal, ← h.startOf_eq]
      exact walk_of_makeDirectories htree' hmade'
  · rw [hmade] at herror
    exact absurd herror (by simp)

end FileSystem

end DeclGraph
