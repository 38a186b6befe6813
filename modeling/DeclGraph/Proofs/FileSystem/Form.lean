import DeclGraph.Batch.Task
import DeclGraph.Proofs.FileSystem.Local

/-!
# Paths that are none

A path with a zero character in a name is no path at all (`Path.HoldsNull`).  Whoever asks for such
a path is refused with an error that is none of the file system, and only then: one lemma for each
operation says so.  A question never tells of it, since nothing is there.
-/

namespace DeclGraph

/-- There is a zero character in a name of the path. -/
def Path.HoldsNull (path : Path) : Prop := ∃ name ∈ path.names, '\x00' ∈ name.toList

namespace FileError

/-- Every error but one is a refusal of the file system. -/
theorem eq_embeddedNull {e : FileError} (h : e.isFromSystem = false) : e = .embeddedNull := by
  cases e with
  | embeddedNull => rfl
  | refused | refusedMove => exact absurd h (by simp [isFromSystem])

end FileError

namespace Path.HoldsNull

variable {path : Path}

/-- What stands above a path is part of it. -/
theorem of_parent (h : path.parent.HoldsNull) : path.HoldsNull := by
  obtain ⟨name, hname, hnull⟩ := h
  exact ⟨name, List.mem_of_mem_dropLast hname, hnull⟩

/-- A suffix without zero characters brings none in. -/
theorem of_beside {suffix : String} (hsuffix : '\x00' ∉ suffix.toList)
    (h : (path.beside suffix).HoldsNull) : path.HoldsNull := by
  obtain ⟨name, hname, hnull⟩ := h
  rcases List.mem_append.1 hname with hname | hname
  · exact ⟨name, List.mem_of_mem_dropLast hname, hnull⟩
  · rw [List.mem_singleton.1 hname, String.toList_append] at hnull
    have hlast : '\x00' ∈ path.name.toList := (List.mem_append.1 hnull).resolve_right hsuffix
    refine ⟨path.name, ?_, hlast⟩
    -- a name with a character is one of the path
    have hnil : path.names ≠ [] := by
      intro hnil
      rw [Path.name, hnil] at hlast
      exact absurd hlast (by simp)
    rw [Path.name, List.getLastD_eq_getLast?, List.getLast?_eq_some_getLast hnil]
    exact List.getLast_mem hnil

end Path.HoldsNull

namespace FileSystem

variable {fs : FileSystem} {path : Path}

/-- Finding a path tells of a zero character first, and only where there is one. -/
theorem locate_eq_embeddedNull_iff :
    fs.locate path = .error .embeddedNull ↔ path.HoldsNull := by
  have hany : (path.names.any fun name => name.toList.contains '\x00') = true
      ↔ path.HoldsNull := by
    simp [Path.HoldsNull]
  -- walking is only refused by the file system
  have hwalk (x : Except FileCause (Place × Option Entry)) :
      (x.mapError fun cause => FileError.refused cause path) ≠ .error .embeddedNull := by
    cases x <;> simp [Except.mapError]
  unfold locate
  rw [← hany]
  split_ifs with hnull hlong
  · exact iff_of_true rfl hnull
  · exact iff_of_false (by simp) hnull
  · exact iff_of_false (hwalk _) hnull

/-- What is read exists. -/
theorem exists_of_read {octets : List UInt8} (h : fs.read path = .ok octets) :
    fs.exists path = .ok true := by
  unfold read at h
  split at h
  · next p content hlocate => rw [«exists», hlocate]; rfl
  · exact absurd h (by simp)
  · exact absurd h (by simp)
  · exact absurd h (by simp)

/-- A refused question is refused by the file system. -/
theorem isFromSystem_of_exists {e : FileError} (h : fs.exists path = .error e) :
    e.isFromSystem = true := by
  obtain ⟨q, rfl, -⟩ := exists_eq_error_iff.1 h
  rfl

theorem holdsNull_of_read (h : fs.read path = .error .embeddedNull) : path.HoldsNull := by
  unfold read at h
  split at h
  · exact absurd h (by simp)
  · exact absurd h (by simp)
  · exact absurd h (by simp)
  · next e hlocate => exact locate_eq_embeddedNull_iff.1 (Except.error.inj h ▸ hlocate)

theorem holdsNull_of_createExclusive (h : fs.createExclusive path = .error .embeddedNull) :
    path.HoldsNull := by
  unfold createExclusive at h
  split at h
  · exact absurd h (by simp)
  · exact absurd h (by simp)
  · next e hlocate => exact locate_eq_embeddedNull_iff.1 (Except.error.inj h ▸ hlocate)

theorem holdsNull_of_write {content : List UInt8}
    (h : fs.write path content = .error .embeddedNull) : path.HoldsNull := by
  unfold write at h
  split at h
  · exact absurd h (by simp)
  · exact absurd h (by simp)
  · next e hlocate => exact locate_eq_embeddedNull_iff.1 (Except.error.inj h ▸ hlocate)

theorem holdsNull_of_makeDirectory (h : fs.makeDirectory path = .error .embeddedNull) :
    path.HoldsNull := by
  unfold makeDirectory at h
  split at h
  · exact absurd h (by simp)
  · exact absurd h (by simp)
  · next e hlocate => exact locate_eq_embeddedNull_iff.1 (Except.error.inj h ▸ hlocate)

/-- What does not settle is told as it was. -/
theorem eq_of_settle {existing : Bool} {e e' : FileError}
    (h : (fs.settle path existing e).map (fun _ => ()) = .error e') : e' = e := by
  unfold settle at h
  split_ifs at h
  · exact absurd h (by simp [Except.map])
  · exact (Except.error.inj h).symm

theorem holdsNull_of_makeDirectoriesWithin {existing : Bool} {depth : Nat}
    (h : (makeDirectoriesWithin path existing depth fs).2 = .error .embeddedNull) :
    path.HoldsNull := by
  -- the directories above are made for a path that is a part of this one
  induction depth generalizing path existing fs with
  | zero =>
    unfold makeDirectoriesWithin at h
    split at h
    · exact absurd h (by simp)
    · exact absurd h (by simp)
    · next _ hmake => exact holdsNull_of_makeDirectory (eq_of_settle h ▸ hmake)
  | succ depth ih =>
    unfold makeDirectoriesWithin at h
    split at h
    · exact absurd h (by simp)
    · dsimp only at h
      split at h
      · next hparent => exact (ih (by rw [hparent]; exact h)).of_parent
      · split at h
        · exact absurd h (by simp)
        · exact absurd h (by simp)
        · next _ hmake => exact holdsNull_of_makeDirectory (eq_of_settle h ▸ hmake)
    · next _ hmake => exact holdsNull_of_makeDirectory (eq_of_settle h ▸ hmake)

theorem holdsNull_of_makeDirectories {existing : Bool}
    (h : (fs.makeDirectories path existing).2 = .error .embeddedNull) : path.HoldsNull :=
  holdsNull_of_makeDirectoriesWithin h

end FileSystem

end DeclGraph
