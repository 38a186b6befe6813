import DeclGraph.Batch.Task
import DeclGraph.Proofs.FileSystem.Directories

/-!
# Seats of artifacts

An artifact, its lock and the file that it is written to first stand beside each other:
`FileSystem.Seats` says in which directory.  Whoever can take the lock knows the seat
(`FileSystem.exists_seat`), since the lock has the longest name of the three.
-/

namespace DeclGraph

namespace Path

theorem names_ne_nil {path : Path} (h : path.name ≠ "") : path.names ≠ [] := by
  intro hnil
  rw [name, hnil] at h
  exact h rfl

theorem names_eq_concat {path : Path} (h : path.names ≠ []) :
    path.names = path.names.dropLast ++ [path.name] := by
  have hlast : path.name = path.names.getLast h := by
    rw [name, List.getLastD_eq_getLast?, List.getLast?_eq_some_getLast h]
    rfl
  rw [hlast, List.dropLast_concat_getLast]

/-- What is added to the last name is added to the text. -/
theorem intercalate_concat (stem : List String) (a b : String) :
    "/".intercalate (stem ++ [a ++ b]) = "/".intercalate (stem ++ [a]) ++ b := by
  induction stem with
  | nil => rw [List.nil_append, List.nil_append, String.intercalate_singleton,
      String.intercalate_singleton]
  | cons c stem ih =>
    rw [List.cons_append, List.cons_append, String.intercalate_cons_of_ne_nil (by simp),
      String.intercalate_cons_of_ne_nil (by simp), ih, String.append_assoc, String.append_assoc,
      String.append_assoc]

/-- The text of a path whose last name is not empty. -/
theorem text_concat (root : Root) (stem : List String) {a : String} (ha : a ≠ "") :
    text ⟨root, stem ++ [a]⟩ = root.text ++ "/".intercalate (stem ++ [a]) := by
  have hne : "/".intercalate (stem ++ [a]) ≠ "" := by
    have := intercalate_concat stem "" a
    rw [String.empty_append] at this
    rw [this]
    intro h
    exact ha (String.append_eq_empty_iff.1 h).2
  have : (root.text ++ "/".intercalate (stem ++ [a])).isEmpty = false := by
    rw [Bool.eq_false_iff]
    intro h
    exact hne (String.append_eq_empty_iff.1 (String.isEmpty_iff.1 h)).2
  rw [text, this]
  rfl

end Path

namespace FileSystem

variable {fs fs' : FileSystem} {path : Path} {p : Place}

/-- A walk goes to the directory of its last name, which then does not matter. -/
theorem exists_directory_of_walk {here : Place} {stem : List String} {a : String}
    {e : Option Entry} (h : fs.walk here (stem ++ [a]) = .ok (p, e)) :
    ∃ d, fs.get? d = some .directory ∧
      ∀ b, fs.walk here (stem ++ [b]) = fs.walk d [b] := by
  induction stem generalizing here with
  | nil => exact ⟨here, directory_of_walk h, fun b => rfl⟩
  | cons name stem ih =>
    -- there is always a name behind, so the walk goes on alike whichever the last one is
    obtain ⟨next, rest, hrest⟩ : ∃ next rest, stem ++ [a] = next :: rest :=
      List.exists_cons_of_ne_nil (by simp)
    have hcons (b : String) : ∃ next rest, stem ++ [b] = next :: rest :=
      List.exists_cons_of_ne_nil (by simp)
    rw [List.cons_append, hrest, walk_cons_cons] at h
    split_ifs at h with h₁ h₂ h₃ h₄
    all_goals
      rw [← hrest] at h
      obtain ⟨d, hd, hwalk⟩ := ih h
      refine ⟨d, hd, fun b => ?_⟩
      obtain ⟨next', rest', hrest'⟩ := hcons b
      rw [List.cons_append, hrest', walk_cons_cons, if_neg h₁]
    · rw [if_pos h₂, ← hrest', hwalk]
    · rw [if_neg h₂, if_neg h₃, if_neg h₄, ← hrest', hwalk]

/-- An artifact has its seat in a directory: it stands there, or would, and beside it its lock and
the file that it is written to first. -/
structure Seats (fs : FileSystem) (artifact : Path) (d : Place) : Prop where
  /-- The seat is a directory. -/
  directory : fs.get? d = some .directory
  /-- The artifact stands there. -/
  file : fs.place? artifact = some (d ++ [artifact.name])
  /-- The lock stands beside it. -/
  lock : fs.place? (lockPath artifact) = some (d ++ [artifact.name ++ ".lock"])
  /-- The file that it is written to first stands beside it. -/
  temp : fs.place? (tempPath artifact) = some (d ++ [artifact.name ++ ".tmp"])

theorem append_ne_up {name suffix : String} (h : 2 < suffix.length) : name ++ suffix ≠ ".." := by
  intro heq
  have := congrArg String.length heq
  rw [String.length_append] at this
  have htwo : "..".length = 2 := rfl
  omega

/-- A path beside another one that is permitted is permitted, if its suffix is no longer. -/
theorem Permits.of_beside {artifact : Path} (hname : artifact.name ≠ "") {suffix suffix' : String}
    (h : Permits (artifact.beside suffix)) (hlen : suffix'.utf8ByteSize ≤ suffix.utf8ByteSize)
    (hnull : '\x00' ∉ suffix'.toList) : Permits (artifact.beside suffix') := by
  have hne (s : String) : artifact.name ++ s ≠ "" := fun h =>
    hname (String.append_eq_empty_iff.1 h).1
  constructor
  · intro name hmem
    rcases List.mem_append.1 hmem with hstem | hlast
    · exact h.noNull name (List.mem_append_left _ hstem)
    · obtain rfl := List.mem_singleton.1 hlast
      have hfirst := h.noNull (artifact.name ++ suffix) (by simp [Path.beside])
      rw [String.toList_append, List.mem_append, not_or] at hfirst ⊢
      exact ⟨hfirst.1, hnull⟩
  · have hshort := h.short
    rw [Path.beside, Path.text_concat _ _ (hne _), Path.intercalate_concat] at hshort ⊢
    simp only [String.utf8ByteSize_append] at hshort ⊢
    omega

theorem beside_empty {artifact : Path} (hname : artifact.name ≠ "") :
    artifact.beside "" = artifact := by
  rw [Path.beside, String.append_empty, ← Path.names_eq_concat (Path.names_ne_nil hname)]

/-- A path with a name means a place in a directory, or the one above if the name leads upwards. -/
theorem exists_directory_of_place? (hnil : path.names ≠ []) (h : fs.place? path = some p) :
    ∃ d, fs.get? d = some .directory ∧
      (path.name = ".." ∧ p = d.dropLast ∨ path.name ≠ ".." ∧ p = d ++ [path.name]) := by
  obtain ⟨-, hwalk⟩ := place?_eq_some_iff.1 h
  rw [Path.names_eq_concat hnil] at hwalk
  obtain ⟨d, hd, hstem⟩ := exists_directory_of_walk hwalk
  have hlast := (hstem path.name).symm.trans hwalk
  rw [walk_singleton, if_neg (not_not.2 hd)] at hlast
  refine ⟨d, hd, ?_⟩
  split_ifs at hlast with hup
  · exact .inl ⟨hup, (Prod.mk.inj (Except.ok.inj hlast)).1.symm⟩
  · exact .inr ⟨hup, (Prod.mk.inj (Except.ok.inj hlast)).1.symm⟩

/-- In a tree a path means a place with its name, or a directory. -/
theorem IsTree.directory_or_concat (htree : fs.IsTree) (h : fs.place? path = some p) :
    fs.get? p = some .directory ∨ ∃ d, p = d ++ [path.name] := by
  by_cases hnil : path.names = []
  · obtain ⟨-, hwalk⟩ := place?_eq_some_iff.1 h
    rw [hnil] at hwalk
    obtain ⟨rfl, -⟩ := Prod.mk.inj (Except.ok.inj hwalk)
    exact .inl (htree.startOf path)
  · obtain ⟨d, hd, ⟨-, rfl⟩ | ⟨-, rfl⟩⟩ := exists_directory_of_place? hnil h
    · exact .inl (htree.dropLast hd)
    · exact .inr ⟨d, rfl⟩

/-- A path means a place with its name, unless that leads upwards. -/
theorem exists_concat_of_name (hnil : path.names ≠ []) (hup : path.name ≠ "..")
    (h : fs.place? path = some p) : ∃ d, p = d ++ [path.name] := by
  obtain ⟨d, -, ⟨hup', -⟩ | ⟨-, hp⟩⟩ := exists_directory_of_place? hnil h
  · exact absurd hup' hup
  · exact ⟨d, hp⟩

theorem name_beside (artifact : Path) (suffix : String) :
    (artifact.beside suffix).name = artifact.name ++ suffix := by
  rw [Path.beside, Path.name, List.getLastD_concat]

/-- A path beside another one means a place with that name. -/
theorem exists_concat_of_place? {artifact : Path} {suffix : String} (hlen : 2 < suffix.length)
    (h : fs.place? (artifact.beside suffix) = some p) :
    ∃ d, p = d ++ [artifact.name ++ suffix] := by
  rw [← name_beside]
  refine exists_concat_of_name (by simp [Path.beside]) ?_ h
  rw [name_beside]
  exact append_ne_up hlen

/-- Where a lock means a place the artifact has a seat, unless its name leads upwards. -/
theorem exists_seat {artifact : Path} (hname : artifact.name ≠ "")
    (hlock : fs.place? (lockPath artifact) = some p) :
    ∃ d, fs.get? d = some .directory ∧ p = d ++ [artifact.name ++ ".lock"] ∧
      if artifact.name = ".." then fs.place? artifact = some d.dropLast
      else fs.Seats artifact d := by
  obtain ⟨hpermits, hwalk⟩ := place?_eq_some_iff.1 hlock
  obtain ⟨d, hd, hstem⟩ := exists_directory_of_walk hwalk
  have hlast := (hstem (artifact.name ++ ".lock")).symm.trans hwalk
  rw [walk_singleton, if_neg (not_not.2 hd), if_neg (append_ne_up (by decide))] at hlast
  split_ifs at hlast with hlong
  obtain rfl := (Prod.mk.inj (Except.ok.inj hlast)).1
  -- the lock has the longest of the names
  have hsize : artifact.name.utf8ByteSize + 5 ≤ nameLimit := by
    rw [String.utf8ByteSize_append] at hlong
    exact not_lt.1 hlong
  have hbeside {suffix : String} (hlen : suffix.utf8ByteSize ≤ 5) (hnull : '\x00' ∉ suffix.toList)
      (hup : artifact.name ++ suffix ≠ "..") :
      fs.place? (artifact.beside suffix) = some (d ++ [artifact.name ++ suffix]) := by
    refine place?_eq_some_iff.2 ⟨hpermits.of_beside hname hlen hnull, ?_⟩
    refine (hstem (artifact.name ++ suffix)).trans (walk_last hd hup ?_)
    rw [String.utf8ByteSize_append]
    omega
  refine ⟨d, hd, rfl, ?_⟩
  split_ifs with hup
  · -- the walk goes up again from the directory where the lock would stand
    have hpermits' := hpermits.of_beside hname (by decide : "".utf8ByteSize ≤ _) (by decide)
    rw [beside_empty hname] at hpermits'
    refine place?_eq_some_iff.2 ⟨hpermits', ?_⟩
    rw [Path.names_eq_concat (Path.names_ne_nil hname), hup]
    refine (hstem "..").trans ?_
    rw [walk_singleton, if_neg (not_not.2 hd), if_pos rfl]
  · refine ⟨hd, ?_, hlock, hbeside (by decide) (by decide) (append_ne_up (by decide))⟩
    have h := hbeside (by decide : "".utf8ByteSize ≤ 5) (by decide) (by rwa [String.append_empty])
    rwa [beside_empty hname, String.append_empty] at h

/-! ### Names that differ -/

theorem append_ne_self {name suffix : String} (h : suffix ≠ "") : name ≠ name ++ suffix := by
  intro heq
  have := congrArg String.length heq
  rw [String.length_append] at this
  have hpos : suffix.length ≠ 0 := fun hzero => h (String.length_eq_zero_iff.1 hzero)
  omega

theorem append_lock_ne_append_tmp (a b : String) : a ++ ".lock" ≠ b ++ ".tmp" := by
  intro heq
  have := congrArg (fun s => s.toList.getLast?) heq
  simp only [String.toList_append] at this
  rw [show ".lock".toList = ['.', 'l', 'o', 'c', 'k'] from rfl,
    show ".tmp".toList = ['.', 't', 'm', 'p'] from rfl] at this
  simp at this

theorem concat_inj {d d' : Place} {a a' : String} (h : d ++ [a] = d' ++ [a']) :
    d = d' ∧ a = a' := by
  obtain ⟨hd, ha⟩ := List.append_inj' h rfl
  exact ⟨hd, List.singleton_inj.1 ha⟩

theorem lock_ne_temp (d d' : Place) (a b : String) : d ++ [a ++ ".lock"] ≠ d' ++ [b ++ ".tmp"] :=
  fun h => append_lock_ne_append_tmp a b (concat_inj h).2

theorem beside_ne (d d' : Place) (name : String) {suffix : String} (h : suffix ≠ "") :
    d ++ [name] ≠ d' ++ [name ++ suffix] :=
  fun heq => append_ne_self h (concat_inj heq).2

/-- Artifacts with one lock are one artifact. -/
theorem place?_eq_of_lock {a b : Path} (ha : a.name ≠ "") (hb : b.name ≠ "")
    (hlock : fs.place? (lockPath a) = some p) (hlock' : fs.place? (lockPath b) = some p) :
    ∃ q, fs.place? a = some q ∧ fs.place? b = some q := by
  obtain ⟨d, -, rfl, hseat⟩ := exists_seat ha hlock
  obtain ⟨d', -, heq, hseat'⟩ := exists_seat hb hlock'
  obtain ⟨rfl, hname⟩ := concat_inj heq
  have hname : a.name = b.name := (String.append_left_inj _).1 hname
  by_cases hup : a.name = ".."
  · rw [if_pos hup] at hseat
    rw [if_pos (hname ▸ hup)] at hseat'
    exact ⟨_, hseat, hseat'⟩
  · rw [if_neg hup] at hseat
    rw [if_neg (hname ▸ hup)] at hseat'
    refine ⟨_, hseat.file, ?_⟩
    rw [hname]
    exact hseat'.file

end FileSystem

end DeclGraph
