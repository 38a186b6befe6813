import DeclGraph.Proofs.FileSystem.Local

/-!
# Making directories

A file system `IsTree` when everything stands in a directory.  `makeDirectories_grows` says what
making directories does to a file system: the directory that is wanted and those above it may be
new (`FileSystem.Grows`), and nothing else changes.
A directory that has been made is there (`at?_of_makeDirectories`), and making it once more does
nothing (`makeDirectories_of_at?`).
-/

namespace DeclGraph

/-- The path with the first names of another one. -/
def Path.above (path : Path) (k : Nat) : Path := ⟨path.root, path.names.take k⟩

namespace FileSystem

variable {fs fs' fs'' : FileSystem} {path : Path} {p : Place}

/-! ### Trees -/

/-- Everything stands in a directory, and there is a directory to work in. -/
structure IsTree (fs : FileSystem) : Prop where
  /-- What stands at a place stands in a directory. -/
  parent : ∀ p, fs.get? p ≠ none → fs.get? p.dropLast = some .directory
  /-- The working directory is there. -/
  workingDirectory : fs.get? fs.workingDirectory = some .directory

namespace IsTree

/-- The entries say whether a file system is a tree. -/
theorem of_entries (hparent : ∀ e ∈ fs.entries, fs.get? e.1.dropLast = some .directory)
    (hworks : fs.get? fs.workingDirectory = some .directory) : fs.IsTree := by
  refine ⟨fun p hp => ?_, hworks⟩
  by_cases hnil : p = []
  · rw [hnil]
    rfl
  · rw [get?, if_neg hnil] at hp
    obtain ⟨e, he⟩ := Option.ne_none_iff_exists'.1 hp
    exact hparent _ (Entries.mem_of_get? he)

/-- The fresh file system is a tree. -/
theorem fresh : FileSystem.fresh.IsTree := .of_entries (by decide) rfl

theorem startOf (h : fs.IsTree) (path : Path) : fs.get? (fs.startOf path) = some .directory := by
  unfold FileSystem.startOf
  split
  · exact h.workingDirectory
  · rfl

theorem dropLast (h : fs.IsTree) (hp : fs.get? p = some .directory) :
    fs.get? p.dropLast = some .directory :=
  h.parent p (by rw [hp]; simp)

/-- A walk ends in a directory. -/
theorem dropLast_of_walk (h : fs.IsTree) {here : Place} {names : List String} {e : Option Entry}
    (hhere : fs.get? here = some .directory) (hw : fs.walk here names = .ok (p, e)) :
    fs.get? p.dropLast = some .directory := by
  induction names generalizing here with
  | nil =>
    obtain ⟨rfl, -⟩ := Prod.mk.inj (Except.ok.inj hw)
    exact h.dropLast hhere
  | cons name rest ih =>
    -- only the last name may be missing, so it decides where the walk ends
    cases rest with
    | nil =>
      rw [walk_singleton] at hw
      split_ifs at hw
      · obtain ⟨rfl, -⟩ := Prod.mk.inj (Except.ok.inj hw)
        exact h.dropLast (h.dropLast hhere)
      · obtain ⟨rfl, -⟩ := Prod.mk.inj (Except.ok.inj hw)
        rw [List.dropLast_concat]
        exact hhere
    | cons next rest =>
      rw [walk_cons_cons] at hw
      split_ifs at hw
      · exact ih (directory_of_walk hw) hw
      · exact ih (directory_of_walk hw) hw

theorem dropLast_of_place? (h : fs.IsTree) (hp : fs.place? path = some p) :
    fs.get? p.dropLast = some .directory :=
  h.dropLast_of_walk (h.startOf path) (place?_eq_some_iff.1 hp).2

/-- A tree stays one when something is put into one of its directories. -/
theorem put (h : fs.IsTree) (hp : p ≠ []) (hparent : fs.get? p.dropLast = some .directory)
    {e : Entry} (hkeeps : KeepsDirectories fs (fs.put p e)) : (fs.put p e).IsTree := by
  refine ⟨fun q hq => ?_, hkeeps.keeps _ h.workingDirectory⟩
  rw [get?_put hp] at hq
  split_ifs at hq with heq
  · rw [heq]
    exact hkeeps.keeps _ hparent
  · exact hkeeps.keeps _ (h.parent q hq)

end IsTree

/-! ### Growing -/

/-- `fs'` has what `fs` has, and perhaps new directories where `path` and the paths above it
lead. -/
structure Grows (path : Path) (fs fs' : FileSystem) : Prop where
  /-- The working directory is the same. -/
  workingDirectory : fs'.workingDirectory = fs.workingDirectory
  /-- What is new is a directory on the way to the path. -/
  entry : ∀ q, fs'.get? q = fs.get? q ∨
    (fs.get? q = none ∧ fs'.get? q = some .directory ∧ ∃ k, fs'.place? (path.above k) = some q)
  /-- A tree stays one. -/
  isTree : fs.IsTree → fs'.IsTree

namespace Grows

theorem refl (path : Path) (fs : FileSystem) : Grows path fs fs :=
  ⟨rfl, fun _ => .inl rfl, fun h => h⟩

theorem keepsDirectories (h : Grows path fs fs') : KeepsDirectories fs fs' := by
  refine ⟨h.workingDirectory, fun p hp => ?_⟩
  rcases h.entry p with heq | ⟨-, hdir, -⟩
  · rw [heq, hp]
  · exact hdir

theorem trans (h : Grows path fs fs') (h' : Grows path fs' fs'') : Grows path fs fs'' := by
  refine ⟨h'.workingDirectory.trans h.workingDirectory, fun q => ?_, h'.isTree ∘ h.isTree⟩
  rcases h'.entry q with heq | ⟨hnone, hdir, hk⟩
  · rw [heq]
    rcases h.entry q with heq' | ⟨hnone, hdir, k, hk⟩
    · exact .inl heq'
    · exact .inr ⟨hnone, hdir, k, h'.keepsDirectories.place?_eq_some hk⟩
  · refine .inr ⟨?_, hdir, hk⟩
    rcases h.entry q with heq' | ⟨-, hdir', -⟩
    · rw [← heq', hnone]
    · rw [hdir'] at hnone; exact absurd hnone (by simp)

/-- What grows for the directory above grows for the directory. -/
theorem of_parent (h : Grows path.parent fs fs') : Grows path fs fs' := by
  refine ⟨h.workingDirectory, fun q => ?_, h.isTree⟩
  rcases h.entry q with heq | ⟨hnone, hdir, k, hk⟩
  · exact .inl heq
  · refine .inr ⟨hnone, hdir, min k (path.names.length - 1), ?_⟩
    rw [← hk]
    show fs'.place? ⟨path.root, path.names.take (min k (path.names.length - 1))⟩
      = fs'.place? ⟨path.root, path.names.dropLast.take k⟩
    rw [List.dropLast_eq_take, List.take_take]

end Grows

/-- One directory is made where nothing stands. -/
theorem makeDirectory_grows (h : fs.makeDirectory path = .ok fs') : Grows path fs fs' := by
  unfold makeDirectory at h
  split at h
  · next p hloc =>
    obtain ⟨hp, hnone⟩ := of_locate hloc
    obtain rfl := Except.ok.inj h
    have hne : p ≠ [] := ne_nil_of_get? (by rw [← hnone]; simp)
    have hkeeps : KeepsDirectories fs (fs.put p .directory) := keepsDirectories_put hne
    refine ⟨rfl, fun q => ?_, fun htree => htree.put hne (htree.dropLast_of_place? hp) hkeeps⟩
    by_cases hq : q = p
    · refine .inr ⟨by rw [hq, ← hnone], by rw [get?_put hne, if_pos hq], path.names.length, ?_⟩
      rw [Path.above, List.take_length, hq]
      exact hkeeps.place?_eq_some hp
    · exact .inl (by rw [get?_put hne, if_neg hq])
  · exact absurd h (by simp)
  · exact absurd h (by simp)

/-- Making directories adds directories on the way to the path, and does nothing else. -/
theorem makeDirectoriesWithin_grows (path : Path) (existing : Bool) (depth : Nat)
    (fs : FileSystem) : Grows path fs (makeDirectoriesWithin path existing depth fs).1 := by
  induction depth generalizing path existing fs with
  | zero =>
    unfold makeDirectoriesWithin
    split
    · next h => exact makeDirectory_grows h
    · exact .refl path fs
    · exact .refl path fs
  | succ depth ih =>
    unfold makeDirectoriesWithin
    split
    · next h => exact makeDirectory_grows h
    · -- the parent is missing: it is made first, and only then the directory itself
      have hparent := (ih path.parent true fs).of_parent
      dsimp only
      split
      · next h => rw [h] at hparent; exact hparent
      · next fs₁ h =>
        rw [h] at hparent
        split
        · next h => exact hparent.trans (makeDirectory_grows h)
        · exact hparent
        · exact hparent
    · exact .refl path fs

theorem makeDirectories_grows (fs : FileSystem) (path : Path) (existing : Bool) :
    Grows path fs (fs.makeDirectories path existing).1 :=
  makeDirectoriesWithin_grows path existing _ fs

/-! ### Directories that are there -/

theorem isDirectory_iff : fs.isDirectory path = true ↔ fs.at? path = some .directory := by
  unfold isDirectory
  split
  · next p hloc =>
    obtain ⟨hplace, he⟩ := of_locate hloc
    simp [at?_of_place? hplace, ← he]
  · next hne =>
    refine iff_of_false Bool.false_ne_true fun h => ?_
    have hsome : fs.at? path ≠ none := by rw [h]; simp
    obtain ⟨p, hplace, -⟩ := exists_of_at?_ne_none hsome
    rw [at?_of_place? hplace] at h
    exact hne p (by rw [locate_of_place? hplace, h])

/-- A directory is there wherever the directories are the same. -/
theorem SameDirectories.at?_directory (h : SameDirectories fs fs')
    (hthere : fs.at? path = some .directory) : fs'.at? path = some .directory := by
  have hsome : fs.at? path ≠ none := by rw [hthere]; simp
  obtain ⟨p, hplace, -⟩ := exists_of_at?_ne_none hsome
  rw [at?_of_place? hplace] at hthere
  rw [at?_of_place? ((h.place?_eq path).trans hplace)]
  exact (h.iff p).2 hthere

theorem at?_of_makeDirectory (h : fs.makeDirectory path = .ok fs') :
    fs'.at? path = some .directory := by
  unfold makeDirectory at h
  split at h
  · next p hloc =>
    obtain ⟨hplace, hnone⟩ := of_locate hloc
    obtain rfl := Except.ok.inj h
    have hne : p ≠ [] := ne_nil_of_get? (by rw [← hnone]; simp)
    have hkeeps : KeepsDirectories fs (fs.put p .directory) := keepsDirectories_put hne
    rw [at?_of_place? (hkeeps.place?_eq_some hplace), get?_put hne, if_pos rfl]
  · exact absurd h (by simp)
  · exact absurd h (by simp)

theorem at?_of_settle {existing : Bool} {e : FileError}
    (h : (fs.settle path existing e).map (fun _ => ()) = .ok ()) :
    fs.at? path = some .directory := by
  unfold settle at h
  split_ifs at h with hsettles
  · simp only [Bool.and_eq_true] at hsettles
    exact isDirectory_iff.1 hsettles.2
  · exact absurd h (by simp [Except.map])

/-- A directory that has been made is there. -/
theorem at?_of_makeDirectories {existing : Bool}
    (h : (fs.makeDirectories path existing).2 = .ok ()) :
    (fs.makeDirectories path existing).1.at? path = some .directory := by
  unfold makeDirectories makeDirectoriesWithin at h ⊢
  split at h
  · next hmake => exact at?_of_makeDirectory hmake
  · split at h
    · exact absurd h (by simp)
    · split at h
      · exact absurd h (by simp)
      · next fs₁ _ =>
        split at h
        · next hmake => exact at?_of_makeDirectory hmake
        · exact absurd h (by simp)
        · exact at?_of_settle h
  · exact at?_of_settle h

/-- Making a directory that is there does nothing. -/
theorem makeDirectories_of_at? (h : fs.at? path = some .directory) :
    fs.makeDirectories path true = (fs, .ok ()) := by
  have hsome : fs.at? path ≠ none := by rw [h]; simp
  obtain ⟨p, hplace, -⟩ := exists_of_at?_ne_none hsome
  have hmake : fs.makeDirectory path = .error (.refused .exists path) := by
    have hentry := h
    rw [at?_of_place? hplace] at hentry
    rw [makeDirectory, locate_of_place? hplace, hentry]
  have hsettle : fs.settle path true (.refused .exists path) = .ok fs := by
    rw [settle, isDirectory_iff.2 h]
    rfl
  unfold makeDirectories makeDirectoriesWithin
  rw [hmake]
  dsimp only
  rw [hsettle]
  rfl

end FileSystem

end DeclGraph
