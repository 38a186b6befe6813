import DeclGraph.Proofs.Batch.Artifact
import DeclGraph.Proofs.Batch.Atomic

/-!
# How artifacts are called

The stem of a name (`IsStem`) is what stands in front of its last point, or the whole name if no
point stands behind the first character; every name has one stem, and `withoutExtension` finds it
(`isStem_withoutExtension`, `IsStem.eq_of`).

An artifact is called like the stem of the last name of its input, with the extension behind it.  So
all artifacts stand directly in the output directory, inputs with one stem share their artifact and
no others do, and no artifact, lock or file that is written first is called like one of the other
two kinds, whatever the inputs are (`namesArtifacts`).
-/

namespace DeclGraph

open FileSystem

/-! ### Stems -/

/-- What is left of a name without its last extension. -/
inductive IsStem : List Char → List Char → Prop
  /-- The extension starts at the last point. -/
  | cut {stem extension : List Char} (some : stem ≠ []) (last : '.' ∉ extension) :
    IsStem (stem ++ '.' :: extension) stem
  /-- A point at the start of a name starts no extension. -/
  | whole {name : List Char} (none : '.' ∉ name.tail) : IsStem name name

namespace IsStem

variable {name stem stem' : List Char}

theorem mem_tail_of_cut {extension : List Char} (hsome : stem ≠ []) :
    '.' ∈ (stem ++ '.' :: extension).tail := by
  rw [List.tail_append_of_ne_nil hsome]
  exact List.mem_append_right _ List.mem_cons_self

/-- A name has only one stem. -/
theorem eq_of (h : IsStem name stem) (h' : IsStem name stem') : stem = stem' := by
  generalize heq : name = name' at h'
  cases h with
  | cut hsome hlast =>
    cases h' with
    | cut hsome' hlast' =>
      obtain rfl := Batch.extension_inj hlast hlast' heq
      exact List.append_cancel_right heq
    | whole hnone =>
      rw [← heq] at hnone
      exact absurd (mem_tail_of_cut hsome) hnone
  | whole hnone =>
    cases h' with
    | cut hsome' hlast' =>
      rw [heq] at hnone
      exact absurd (mem_tail_of_cut hsome') hnone
    | whole => exact heq

end IsStem

/-- The name without its extension is the stem. -/
theorem isStem_withoutExtension (name : List Char) : IsStem name (withoutExtension name) := by
  -- the characters behind the last point are those in front of the first one from behind
  have hsplit : name = (name.reverse.dropWhile (· ≠ '.')).reverse
      ++ (name.reverse.takeWhile (· ≠ '.')).reverse := by
    rw [← List.reverse_append, List.takeWhile_append_dropWhile, List.reverse_reverse]
  have hbehind : '.' ∉ (name.reverse.takeWhile (· ≠ '.')).reverse := by
    intro hmem
    have hother := List.mem_takeWhile_imp (List.mem_reverse.1 hmem)
    exact absurd hother (by simp)
  unfold withoutExtension
  split
  · next stem hstem =>
    rw [hstem, List.reverse_cons, List.append_assoc, List.singleton_append] at hsplit
    split_ifs with hempty
    · rw [List.isEmpty_iff.1 hempty, List.reverse_nil, List.nil_append] at hsplit
      refine .whole ?_
      rw [hsplit]
      exact hbehind
    · have hstem : stem.reverse ≠ [] := fun hnil =>
        hempty (List.isEmpty_iff.2 (List.reverse_eq_nil_iff.1 hnil))
      have hcut := IsStem.cut hstem hbehind
      rwa [← hsplit] at hcut
  · next hnone =>
    have hnil : name.reverse.dropWhile (· ≠ '.') = [] := by
      cases hdrop : name.reverse.dropWhile (· ≠ '.') with
      | nil => rfl
      | cons c rest =>
        have hc := List.head?_dropWhile_not (· ≠ '.') name.reverse
        rw [hdrop, List.head?_cons] at hc
        have hc : c = '.' := by simpa using hc
        exact absurd (hc ▸ hdrop) (hnone rest)
    rw [hnil, List.reverse_nil, List.nil_append] at hsplit
    refine .whole fun hmem => hbehind ?_
    rw [← hsplit]
    exact List.mem_of_mem_tail hmem

/-! ### Artifacts -/

/-- How the artifacts of all inputs are called, with what stands beside them. -/
structure NamesArtifacts (directory : Path) (extension : String) : Prop where
  /-- An artifact is called like the stem of its input. -/
  named : ∀ input, ∃ stem, IsStem (CapturedPath.lastName input).toList stem ∧
    (artifactPath input directory extension).name = String.ofList stem ++ "." ++ extension
  /-- It stands directly in the directory. -/
  isIn : ∀ input, (artifactPath input directory extension).parent = directory ∧
    (artifactPath input directory extension).IsIn directory
  /-- So do its lock and the file that it is written to first. -/
  beside : ∀ input, (lockPath (artifactPath input directory extension)).IsIn directory ∧
    (tempPath (artifactPath input directory extension)).IsIn directory
  /-- Inputs with one stem, and no others, have one artifact. -/
  shared : ∀ input input', artifactPath input directory extension
      = artifactPath input' directory extension ↔
    ∃ stem, IsStem (CapturedPath.lastName input).toList stem ∧
      IsStem (CapturedPath.lastName input').toList stem
  /-- No two of an artifact, a lock and a file that is written first are called alike. -/
  apart : ∀ i j k, (artifactPath i directory extension).name
        ≠ (lockPath (artifactPath j directory extension)).name ∧
      (artifactPath i directory extension).name
        ≠ (tempPath (artifactPath k directory extension)).name ∧
      (lockPath (artifactPath j directory extension)).name
        ≠ (tempPath (artifactPath k directory extension)).name

section

variable {extension : String} (hempty : extension ≠ "") (hslash : '/' ∉ extension.toList)

include hempty hslash

theorem name_artifactPath (input : String) (directory : Path) :
    (artifactPath input directory extension).name = artifactName input extension := by
  rw [artifactPath_eq input directory hempty hslash, Path.name, List.getLastD_concat]

/-- Inputs have one artifact where their names have one stem. -/
theorem artifactPath_eq_iff (directory : Path) {input input' : String} :
    artifactPath input directory extension = artifactPath input' directory extension ↔
      withoutExtension (CapturedPath.lastName input).toList
        = withoutExtension (CapturedPath.lastName input').toList := by
  constructor
  · intro h
    have hname := congrArg String.toList (congrArg Path.name h)
    rw [name_artifactPath hempty hslash, name_artifactPath hempty hslash, toList_artifactName,
      toList_artifactName] at hname
    exact List.append_cancel_right hname
  · intro h
    rw [artifactPath, artifactPath, artifactName, artifactName, h]

/-- An artifact is called like nothing that ends in another extension. -/
theorem name_artifactPath_ne (hpoint : '.' ∉ extension.toList) (input : String) (directory : Path)
    {suffix : String} {other : List Char} (hsuffix : suffix.toList = '.' :: other)
    (hother : '.' ∉ other) (hne : extension.toList ≠ other) (name : String) :
    (artifactPath input directory extension).name ≠ name ++ suffix := by
  intro h
  have hlist := congrArg String.toList h
  rw [name_artifactPath hempty hslash, toList_artifactName, String.toList_append, hsuffix] at hlist
  exact hne (Batch.extension_inj hpoint hother hlist)

end

/-- **Names of artifacts.**  With an extension that is a name without points, and neither that of
locks nor that of the files written first: whatever the inputs are, all artifacts, their locks and
the files written first stand directly in the output directory; inputs share their artifact if their
last names have one stem, and only then; and what is called like one of the three kinds is none of
the other two. -/
theorem namesArtifacts (directory : Path) {extension : String} (hempty : extension ≠ "")
    (hslash : '/' ∉ extension.toList) (hpoint : '.' ∉ extension.toList) (hlock : extension ≠ "lock")
    (htemp : extension ≠ "tmp") : NamesArtifacts directory extension := by
  -- an artifact is never the directory itself
  have hsingle : extension ≠ "." := by
    rintro rfl
    exact hpoint (by decide)
  have hisIn (input : String) := isIn_artifactPath input directory hempty hslash hsingle
  constructor
  · intro input
    refine ⟨_, isStem_withoutExtension _, ?_⟩
    rw [name_artifactPath hempty hslash, artifactName]
  · intro input
    refine ⟨?_, hisIn input⟩
    rw [artifactPath_eq input directory hempty hslash, Path.parent, List.dropLast_concat]
  · exact fun input => ⟨(hisIn input).beside (by decide), (hisIn input).beside (by decide)⟩
  · intro input input'
    rw [artifactPath_eq_iff hempty hslash]
    constructor
    · intro h
      refine ⟨_, isStem_withoutExtension _, ?_⟩
      rw [h]
      exact isStem_withoutExtension _
    · rintro ⟨stem, hstem, hstem'⟩
      rw [(isStem_withoutExtension _).eq_of hstem, (isStem_withoutExtension _).eq_of hstem']
  · intro i j k
    rw [lockPath, tempPath, name_beside, name_beside]
    refine ⟨?_, ?_, append_lock_ne_append_tmp _ _⟩
    · refine name_artifactPath_ne hempty hslash hpoint i directory rfl (by decide) ?_ _
      exact fun h => hlock (String.toList_inj.1 h)
    · refine name_artifactPath_ne hempty hslash hpoint i directory rfl (by decide) ?_ _
      exact fun h => htemp (String.toList_inj.1 h)

/-- The names of object files, whatever they are made of. -/
theorem namesArtifacts_object :
    "obj" ≠ "" ∧ '/' ∉ "obj".toList ∧ '.' ∉ "obj".toList ∧ "obj" ≠ "lock" ∧ "obj" ≠ "tmp" ∧
      NamesArtifacts Batch.smallDirectory "obj" :=
  ⟨by decide, by decide, by decide, by decide, by decide,
    namesArtifacts Batch.smallDirectory (by decide) (by decide) (by decide) (by decide) (by decide)⟩

example : (["C:\\src\\.c", "C:.c", "\\\\host\\share\\a.b.c", "a.b", "a.b/", ""].map fun input =>
    (artifactPath input Batch.smallDirectory "obj").text)
      = ["out/.c.obj", "out/.c.obj", "out/a.b.obj", "out/a.obj", "out/a.obj", "out/.obj"] := by
  decide +kernel

end DeclGraph
