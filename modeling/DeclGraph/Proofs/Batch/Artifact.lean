import DeclGraph.Proofs.Batch.Seat
import DeclGraph.Proofs.FileSystem.Mirror

/-!
# Where artifacts are

An artifact is called after the last name of its input, which holds no slash however the input is
written (`CapturedPath.slash_notMem_lastName`).  So its path has one name more than that of the
output directory (`isIn_artifactPath`), and so have those of its lock and of the file that it is
written to first (`Path.IsIn.beside`).
-/

namespace DeclGraph

/-! ### Last names -/

namespace CapturedPath

variable {c : Char} {cs rest : List Char}

theorem mem_of_behindSeparator? (h : behindSeparator? cs = some rest) (hc : c ∈ rest) :
    c ∈ cs := by
  induction cs with
  | nil => exact absurd h (by simp [behindSeparator?])
  | cons first cs ih =>
    rw [behindSeparator?] at h
    split_ifs at h
    · obtain rfl := Option.some.inj h
      exact List.mem_cons_of_mem _ hc
    · exact List.mem_cons_of_mem _ (ih h)

theorem mem_of_behindShare? (h : behindShare? cs = some rest) (hc : c ∈ rest) : c ∈ cs := by
  unfold behindShare? at h
  split at h
  · exact absurd h (by simp)
  · next name _ =>
    split at h
    · exact absurd h (by simp)
    · exact absurd h (by simp)
    · next share _ hshare =>
      obtain rfl := Option.some.inj h
      cases hbehind : behindSeparator? share with
      | none =>
        rw [hbehind] at hc
        exact absurd hc (by simp)
      | some behind =>
        rw [hbehind] at hc
        have := mem_of_behindSeparator? hshare (mem_of_behindSeparator? hbehind hc)
        exact List.mem_cons_of_mem _ (List.mem_cons_of_mem _ this)
  · exact absurd h (by simp)

theorem mem_of_mem_withoutMark (hc : c ∈ withoutMark cs) : c ∈ cs := by
  unfold withoutMark at hc
  split at hc
  · simp only [List.mem_cons] at hc ⊢
    tauto
  · simp only [List.mem_cons]
    tauto
  · exact hc

theorem mem_of_mem_behindDrive (hc : c ∈ behindDrive cs) : c ∈ cs := by
  unfold behindDrive at hc
  split at hc
  · split_ifs at hc
    · exact List.mem_cons_of_mem _ (List.mem_cons_of_mem _ hc)
    · exact hc
  · exact hc

/-- What is behind the drive, share or root stands in the path. -/
theorem mem_of_mem_relativePart (hc : c ∈ relativePart cs) : c ∈ cs := by
  unfold relativePart at hc
  dsimp only at hc
  split at hc
  · next hshare => exact mem_of_mem_withoutMark (mem_of_behindShare? hshare hc)
  · exact mem_of_mem_withoutMark
      (mem_of_mem_behindDrive ((List.dropWhile_sublist _).subset hc))

/-- No last name holds a slash. -/
theorem slash_notMem_lastName (s : String) : '/' ∉ (lastName s).toList := by
  intro hmem
  have hlast : ∀ names : List (List Char), (∀ name ∈ names, '/' ∉ name) →
      '/' ∉ names.getLastD [] := by
    intro names hnames
    cases names with
    | nil => simp
    | cons first names =>
      rw [List.getLastD_cons, List.getLastD_eq_getLast?]
      cases hlast : names.getLast? with
      | none => exact hnames first List.mem_cons_self
      | some last => exact hnames last (List.mem_cons_of_mem _ (List.mem_of_getLast? hlast))
  rw [lastName, String.toList_ofList] at hmem
  refine hlast _ (fun name hname hslash => ?_) hmem
  -- every slash has become a backslash
  have hturned := mem_of_mem_relativePart
    (mem_of_mem_splitAt (List.mem_of_mem_filter hname) hslash)
  obtain ⟨c, -, hc⟩ := List.mem_map.1 hturned
  split_ifs at hc with hif
  · exact absurd hc (by decide)
  · exact hif hc

end CapturedPath

/-! ### Artifacts -/

theorem mem_of_mem_withoutExtension {c : Char} {name : List Char}
    (hc : c ∈ withoutExtension name) : c ∈ name := by
  unfold withoutExtension at hc
  split at hc
  · next stem hstem =>
    split_ifs at hc
    · exact hc
    · have hmem : c ∈ name.reverse.dropWhile (· ≠ '.') := by
        rw [hstem]
        exact List.mem_cons_of_mem _ (List.mem_reverse.1 hc)
      exact List.mem_reverse.1 ((List.dropWhile_sublist _).subset hmem)
  · exact hc

/-- A text without slashes is a single name. -/
theorem Path.child_of_slash_notMem {name : String} (directory : Path) (hslash : '/' ∉ name.toList)
    (hlength : 1 < name.length) :
    directory.child name = ⟨directory.root, directory.names ++ [name]⟩ := by
  have hroot : rootOf name.toList = .relative := by
    unfold rootOf
    split
    · next hname => exact absurd (by rw [hname]; simp) hslash
    · next hname => exact absurd (by rw [hname]; simp) hslash
    · next hname => exact absurd (by rw [hname]; simp) hslash
    · rfl
  have hnames : namesOf name.toList = [name] := by
    rw [← String.length_toList] at hlength
    rw [namesOf, splitAt_of_not_mem hslash, List.filter_cons_of_pos]
    · simp
    · refine decide_eq_true ⟨fun hnil => ?_, fun hpoint => ?_⟩
      · rw [hnil] at hlength
        exact absurd hlength (by decide)
      · rw [hpoint] at hlength
        exact absurd hlength (by decide)
  rw [child, ofText, hroot, hnames]

theorem toList_artifactName (input extension : String) :
    (artifactName input extension).toList
      = withoutExtension (CapturedPath.lastName input).toList ++ '.' :: extension.toList := by
  simp only [artifactName, String.toList_append, String.toList_ofList, List.append_assoc]
  rfl

/-- The path of an artifact has one name more than the directory, if its extension is part of a
name. -/
theorem artifactPath_eq (input : String) (directory : Path) {extension : String}
    (hempty : extension ≠ "") (hslash : '/' ∉ extension.toList) :
    artifactPath input directory extension
      = ⟨directory.root, directory.names ++ [artifactName input extension]⟩ := by
  have hlong : 1 < (artifactName input extension).length := by
    have hsome : 0 < extension.toList.length :=
      List.length_pos_of_ne_nil fun hnil => hempty (String.toList_eq_nil_iff.1 hnil)
    rw [← String.length_toList, toList_artifactName, List.length_append, List.length_cons]
    omega
  refine Path.child_of_slash_notMem directory ?_ hlong
  intro hmem
  rw [toList_artifactName, List.mem_append, List.mem_cons] at hmem
  rcases hmem with hstem | hseparator | hextension
  · exact CapturedPath.slash_notMem_lastName input (mem_of_mem_withoutExtension hstem)
  · exact absurd hseparator (by decide)
  · exact hslash hextension

/-- An artifact is in the directory that it is made for, if its extension is part of a name. -/
theorem isIn_artifactPath (input : String) (directory : Path) {extension : String}
    (hempty : extension ≠ "") (hslash : '/' ∉ extension.toList) (hpoint : extension ≠ ".") :
    (artifactPath input directory extension).IsIn directory := by
  refine ⟨artifactName input extension, fun hup => ?_,
    artifactPath_eq input directory hempty hslash⟩
  -- of two points one would be in front of the extension and one in it, or none would be in it
  have hname := toList_artifactName input extension
  rw [hup, show "..".toList = ['.', '.'] from rfl] at hname
  generalize withoutExtension (CapturedPath.lastName input).toList = stem at hname
  match stem, hname with
  | [], hname => exact hpoint (String.toList_inj.1 (List.cons.inj hname).2.symm)
  | [c], hname =>
    exact hempty (String.toList_eq_nil_iff.1 (List.cons.inj (List.cons.inj hname).2).2.symm)
  | c :: d :: stem, hname => simp at hname

/-- What stands beside a file in a directory is in it. -/
theorem Path.IsIn.beside {path directory : Path} (h : path.IsIn directory) {suffix : String}
    (hlength : 2 < suffix.length) : (path.beside suffix).IsIn directory := by
  obtain ⟨name, -, rfl⟩ := h
  refine ⟨name ++ suffix, FileSystem.append_ne_up hlength, ?_⟩
  rw [Path.beside, List.dropLast_concat, Path.name, List.getLastD_concat]

end DeclGraph
