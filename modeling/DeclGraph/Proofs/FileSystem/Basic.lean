import DeclGraph.FileSystem.Basic
import DeclGraph.Proofs.Entries

/-!
# Places and changes of a file system

`FileSystem.place?` is the place that a path means.  It depends on the directories alone
(`SameDirectories.place?_eq`), so it stays while files come and go.  For each operation one lemma
says which entry it changes when it succeeds, and when it does.
-/

namespace DeclGraph

/-- What is left when the entries of one key are dropped. -/
theorem Entries.get?_filter_ne {κ α : Type} [DecidableEq κ] (k k' : κ) (m : Entries κ α) :
    Entries.get? k (m.filter fun e => e.1 ≠ k') = if k = k' then none else Entries.get? k m := by
  induction m with
  | nil => simp [Entries.get?]
  | cons e rest ih =>
    obtain ⟨key, v⟩ := e
    by_cases hkey : key = k'
    · rw [List.filter_cons_of_neg (by simpa using hkey), ih, Entries.get?]
      split_ifs with hk hk'
      · rfl
      · exact absurd (hk'.symm.trans hkey) hk
      · rfl
    · rw [List.filter_cons_of_pos (by simpa using hkey), Entries.get?, Entries.get?, ih]
      split_ifs with hk hk'
      · exact absurd (hk.trans hk') hkey
      · rfl
      · rfl
      · rfl

namespace FileSystem

variable {fs fs' : FileSystem} {path : Path} {p : Place}

/-! ### Places -/

/-- Where the names of a path are looked up first. -/
def startOf (fs : FileSystem) (path : Path) : Place :=
  match path.root with
  | .relative => fs.workingDirectory
  | _ => []

/-- No name holds a zero character, and the text is not too long. -/
structure Permits (path : Path) : Prop where
  /-- There is no zero character in a name. -/
  noNull : ∀ name ∈ path.names, '\x00' ∉ name.toList
  /-- The text is not too long. -/
  short : path.text.utf8ByteSize ≤ pathLimit

/-- A path is located where its names lead. -/
theorem locate_eq_ok_iff {e : Option Entry} :
    fs.locate path = .ok (p, e)
      ↔ Permits path ∧ fs.walk (fs.startOf path) path.names = .ok (p, e) := by
  have hnull : ¬ (path.names.any fun name => name.toList.contains '\x00') = true
      ↔ ∀ name ∈ path.names, '\x00' ∉ name.toList := by
    simp
  unfold locate
  split_ifs with h₁ h₂
  · exact ⟨fun h => absurd h (by simp), fun ⟨hp, _⟩ => absurd h₁ (hnull.2 hp.noNull)⟩
  · exact ⟨fun h => absurd h (by simp), fun ⟨hp, _⟩ => absurd h₂ (not_lt.2 hp.short)⟩
  · show (fs.walk (fs.startOf path) path.names).mapError _ = _ ↔ _
    have hpermits : Permits path := ⟨hnull.1 h₁, not_lt.1 h₂⟩
    cases fs.walk (fs.startOf path) path.names with
    | ok x => simp [Except.mapError, hpermits]
    | error c => simp [Except.mapError]

/-- The place that a path means. -/
def place? (fs : FileSystem) (path : Path) : Option Place :=
  match fs.locate path with
  | .ok (p, _) => some p
  | .error _ => none

/-- What stands where a path means. -/
def at? (fs : FileSystem) (path : Path) : Option Entry := (fs.place? path).bind fs.get?

/-- What a walk does with a name that is not the last. -/
theorem walk_cons_cons (here : Place) (name next : String) (rest : List String) :
    fs.walk here (name :: next :: rest) =
      if fs.get? here ≠ some .directory then .error .notDirectory
      else if name = ".." then fs.walk here.dropLast (next :: rest)
      else if nameLimit < name.utf8ByteSize then .error .nameTooLong
      else if fs.get? (here ++ [name]) = none then .error .notFound
      else fs.walk (here ++ [name]) (next :: rest) := by
  rw [walk]
  dsimp only
  cases fs.get? (here ++ [name]) <;> simp

/-- What a walk does with the last name. -/
theorem walk_singleton (here : Place) (name : String) :
    fs.walk here [name] =
      if fs.get? here ≠ some .directory then .error .notDirectory
      else if name = ".." then .ok (here.dropLast, fs.get? here.dropLast)
      else if nameLimit < name.utf8ByteSize then .error .nameTooLong
      else .ok (here ++ [name], fs.get? (here ++ [name])) := by
  rw [walk]
  dsimp only
  cases h : fs.get? (here ++ [name]) <;> simp [walk, h]

/-- A short name leads into the directory. -/
theorem walk_last {d : Place} (hd : fs.get? d = some .directory) {name : String}
    (hup : name ≠ "..") (hlong : name.utf8ByteSize ≤ nameLimit) :
    fs.walk d [name] = .ok (d ++ [name], fs.get? (d ++ [name])) := by
  rw [walk_singleton, if_neg (not_not.2 hd), if_neg hup, if_neg (not_lt.2 hlong)]

theorem directory_of_walk {here : Place} {name : String} {rest : List String}
    {x : Place × Option Entry} (h : fs.walk here (name :: rest) = .ok x) :
    fs.get? here = some .directory := by
  rw [walk] at h
  split_ifs at h with hdir
  all_goals exact not_not.1 hdir

/-- A walk tells what stands where it ends. -/
theorem walk_entry {here : Place} {names : List String} {e : Option Entry}
    (h : fs.walk here names = .ok (p, e)) : e = fs.get? p := by
  induction names generalizing here with
  | nil =>
    obtain ⟨rfl, rfl⟩ := Prod.mk.inj (Except.ok.inj h)
    rfl
  | cons name rest ih =>
    cases rest with
    | nil =>
      rw [walk_singleton] at h
      split_ifs at h
      all_goals
        obtain ⟨rfl, rfl⟩ := Prod.mk.inj (Except.ok.inj h)
        rfl
    | cons next rest =>
      rw [walk_cons_cons] at h
      split_ifs at h
      · exact ih h
      · exact ih h

/-- A path means a place exactly if its names lead there. -/
theorem place?_eq_some_iff :
    fs.place? path = some p
      ↔ Permits path ∧ fs.walk (fs.startOf path) path.names = .ok (p, fs.get? p) := by
  unfold place?
  split
  · next q e hloc =>
    obtain ⟨hpermits, hwalk⟩ := locate_eq_ok_iff.1 hloc
    obtain rfl := walk_entry hwalk
    constructor
    · intro h
      obtain rfl := Option.some.inj h
      exact ⟨hpermits, hwalk⟩
    · rintro ⟨-, h⟩
      rw [hwalk] at h
      rw [(Prod.mk.inj (Except.ok.inj h)).1]
  · next e hloc =>
    refine ⟨fun h => absurd h (by simp), fun h => ?_⟩
    rw [locate_eq_ok_iff.2 h] at hloc
    exact absurd hloc (by simp)

theorem locate_of_place? (h : fs.place? path = some p) :
    fs.locate path = .ok (p, fs.get? p) :=
  locate_eq_ok_iff.2 (place?_eq_some_iff.1 h)

theorem of_locate {e : Option Entry} (h : fs.locate path = .ok (p, e)) :
    fs.place? path = some p ∧ e = fs.get? p :=
  ⟨by rw [place?, h], walk_entry (locate_eq_ok_iff.1 h).2⟩

/-! ### Directories -/

/-- Every directory is still there, and so is the one to work in. -/
structure KeepsDirectories (fs fs' : FileSystem) : Prop where
  /-- The working directory is the same. -/
  workingDirectory : fs'.workingDirectory = fs.workingDirectory
  /-- Directories stay. -/
  keeps : ∀ p, fs.get? p = some .directory → fs'.get? p = some .directory

namespace KeepsDirectories

theorem refl (fs : FileSystem) : KeepsDirectories fs fs := ⟨rfl, fun _ hp => hp⟩

theorem trans {fs'' : FileSystem} (h : KeepsDirectories fs fs')
    (h' : KeepsDirectories fs' fs'') : KeepsDirectories fs fs'' :=
  ⟨h'.workingDirectory.trans h.workingDirectory, fun p hp => h'.keeps p (h.keeps p hp)⟩

/-- A walk still leads to the same place. -/
theorem walk (h : KeepsDirectories fs fs') {here : Place} {names : List String}
    (hw : fs.walk here names = .ok (p, fs.get? p)) :
    fs'.walk here names = .ok (p, fs'.get? p) := by
  induction names generalizing here with
  | nil =>
    obtain ⟨rfl, -⟩ := Prod.mk.inj (Except.ok.inj hw)
    rfl
  | cons name rest ih =>
    cases rest with
    | nil =>
      -- it does not matter whether something stands at the last name
      rw [walk_singleton] at hw
      split_ifs at hw with h₁ h₂ h₃
      all_goals
        rw [walk_singleton, if_neg (not_not.2 (h.keeps here (not_not.1 h₁)))]
        obtain ⟨rfl, -⟩ := Prod.mk.inj (Except.ok.inj hw)
      · rw [if_pos h₂]
      · rw [if_neg h₂, if_neg h₃]
    | cons next rest =>
      rw [walk_cons_cons] at hw
      split_ifs at hw with h₁ h₂ h₃ h₄
      all_goals rw [walk_cons_cons, if_neg (not_not.2 (h.keeps here (not_not.1 h₁)))]
      · rw [if_pos h₂]
        exact ih hw
      · -- what has names behind it is a directory
        have hdir := h.keeps _ (directory_of_walk hw)
        rw [if_neg h₂, if_neg h₃, if_neg (by rw [hdir]; simp)]
        exact ih hw

/-- Paths still mean the same places. -/
theorem place?_eq_some (h : KeepsDirectories fs fs') (hp : fs.place? path = some p) :
    fs'.place? path = some p := by
  obtain ⟨hpermits, hwalk⟩ := place?_eq_some_iff.1 hp
  refine place?_eq_some_iff.2 ⟨hpermits, ?_⟩
  have hstart : fs'.startOf path = fs.startOf path := by
    rw [startOf, startOf, h.workingDirectory]
  rw [hstart]
  exact h.walk hwalk

end KeepsDirectories

/-- The same directories, and the same of them to work in. -/
structure SameDirectories (fs fs' : FileSystem) : Prop where
  /-- The working directory is the same. -/
  workingDirectory : fs'.workingDirectory = fs.workingDirectory
  /-- The directories are the same. -/
  iff : ∀ p, fs'.get? p = some .directory ↔ fs.get? p = some .directory

namespace SameDirectories

theorem refl (fs : FileSystem) : SameDirectories fs fs := ⟨rfl, fun _ => Iff.rfl⟩

theorem symm (h : SameDirectories fs fs') : SameDirectories fs' fs :=
  ⟨h.workingDirectory.symm, fun p => (h.iff p).symm⟩

theorem trans {fs'' : FileSystem} (h : SameDirectories fs fs') (h' : SameDirectories fs' fs'') :
    SameDirectories fs fs'' :=
  ⟨h'.workingDirectory.trans h.workingDirectory, fun p => (h'.iff p).trans (h.iff p)⟩

theorem keepsDirectories (h : SameDirectories fs fs') : KeepsDirectories fs fs' :=
  ⟨h.workingDirectory, fun p => (h.iff p).2⟩

/-- Paths mean the same places where the directories are the same. -/
theorem place?_eq (h : SameDirectories fs fs') (path : Path) :
    fs'.place? path = fs.place? path := by
  cases hp : fs.place? path with
  | some p => exact h.keepsDirectories.place?_eq_some hp
  | none =>
    cases hp' : fs'.place? path with
    | none => rfl
    | some p =>
      rw [h.symm.keepsDirectories.place?_eq_some hp'] at hp
      exact absurd hp (by simp)

end SameDirectories

/-! ### Single entries -/

theorem ne_nil_of_get? (h : fs.get? p ≠ some .directory) : p ≠ [] := by
  rintro rfl
  exact h rfl

/-- Something new stands at one place; the others keep what they have. -/
theorem get?_put (hp : p ≠ []) (e : Entry) (q : Place) :
    (fs.put p e).get? q = if q = p then some e else fs.get? q := by
  by_cases hq : q = []
  · subst hq
    rw [if_neg (Ne.symm hp)]; rfl
  · rw [get?, if_neg hq, get?, if_neg hq]
    split_ifs with h
    · rw [h]; exact Entries.get?_put_self ..
    · exact Entries.get?_put_of_ne h ..

theorem get?_remove (hp : p ≠ []) (q : Place) :
    (fs.remove p).get? q = if q = p then none else fs.get? q := by
  by_cases hq : q = []
  · subst hq
    rw [if_neg (Ne.symm hp)]; rfl
  · rw [get?, if_neg hq, get?, if_neg hq]
    exact Entries.get?_filter_ne ..

/-- A new directory is one directory more. -/
theorem keepsDirectories_put (hp : p ≠ []) : KeepsDirectories fs (fs.put p .directory) := by
  refine ⟨rfl, fun q hq => ?_⟩
  rw [get?_put hp]
  split_ifs
  · rfl
  · exact hq

/-- A file takes no directory's place. -/
theorem sameDirectories_put (hp : fs.get? p ≠ some .directory) (content : List UInt8) :
    SameDirectories fs (fs.put p (.file content)) := by
  refine ⟨rfl, fun q => ?_⟩
  rw [get?_put (ne_nil_of_get? hp)]
  split_ifs with h
  · subst h
    exact ⟨fun h => absurd h (by simp), fun h => absurd h hp⟩
  · exact Iff.rfl

/-- A file that goes was no directory. -/
theorem sameDirectories_remove (hp : fs.get? p ≠ some .directory) :
    SameDirectories fs (fs.remove p) := by
  refine ⟨rfl, fun q => ?_⟩
  rw [get?_remove (ne_nil_of_get? hp)]
  split_ifs with h
  · subst h
    exact ⟨fun h => absurd h (by simp), fun h => absurd h hp⟩
  · exact Iff.rfl

/-! ### Operations -/

theorem exists_eq_of_place? (h : fs.place? path = some p) :
    fs.exists path = .ok (fs.get? p).isSome := by
  rw [FileSystem.exists, locate_of_place? h]

/-- A file is created where nothing stands. -/
theorem of_createExclusive (h : fs.createExclusive path = .ok fs') :
    ∃ p, fs.place? path = some p ∧ fs.get? p = none ∧ fs' = fs.put p (.file []) := by
  unfold createExclusive at h
  split at h
  · next p hloc =>
    obtain ⟨hp, he⟩ := of_locate hloc
    exact ⟨p, hp, he.symm, (Except.ok.inj h).symm⟩
  · exact absurd h (by simp)
  · exact absurd h (by simp)

/-- A file is opened where no directory stands. -/
theorem of_openEmpty (h : fs.openEmpty path = .ok fs') :
    ∃ p, fs.place? path = some p ∧ fs.get? p ≠ some .directory ∧ fs' = fs.put p (.file []) := by
  unfold openEmpty at h
  split at h
  · exact absurd h (by simp)
  · next p e hne hloc =>
    obtain ⟨hp, rfl⟩ := of_locate hloc
    exact ⟨p, hp, hne, (Except.ok.inj h).symm⟩
  · exact absurd h (by simp)

/-- A file is written where no directory stands. -/
theorem of_write {content : List UInt8} (h : fs.write path content = .ok fs') :
    ∃ p, fs.place? path = some p ∧ fs.get? p ≠ some .directory
      ∧ fs' = fs.put p (.file content) := by
  unfold write at h
  split at h
  · exact absurd h (by simp)
  · next p e hne hloc =>
    obtain ⟨hp, rfl⟩ := of_locate hloc
    exact ⟨p, hp, hne, (Except.ok.inj h).symm⟩
  · exact absurd h (by simp)

/-- What has been written is read. -/
theorem read_of_write {content : List UInt8} (h : fs.write path content = .ok fs') :
    fs'.read path = .ok content := by
  obtain ⟨p, hp, hdir, rfl⟩ := of_write h
  have hplace := (sameDirectories_put hdir content).keepsDirectories.place?_eq_some hp
  rw [read, locate_of_place? hplace, get?_put (ne_nil_of_get? hdir), if_pos rfl]

/-- What removing the file at a place comes to. -/
theorem unlinkIfThere_eq (h : fs.place? path = some p) :
    fs.unlinkIfThere path = match fs.get? p with
      | none => .ok fs
      | some (.file _) => .ok (fs.remove p)
      | some .directory => .error (.refused .isDirectory path) := by
  unfold unlinkIfThere unlink
  rw [locate_of_place? h]
  rcases fs.get? p with _ | _ | _ <;> rfl

/-- Where no directory stands nothing does afterwards. -/
theorem exists_unlinkIfThere (h : fs.place? path = some p) (hdir : fs.get? p ≠ some .directory) :
    ∃ fs', fs.unlinkIfThere path = .ok fs' ∧ SameDirectories fs fs' ∧
      ∀ q, fs'.get? q = if q = p then none else fs.get? q := by
  rw [unlinkIfThere_eq h]
  cases hentry : fs.get? p with
  | none =>
    refine ⟨fs, rfl, .refl fs, fun q => ?_⟩
    split_ifs with hq
    · rw [hq, hentry]
    · rfl
  | some e =>
    cases e with
    | directory => exact absurd hentry hdir
    | file content =>
      exact ⟨fs.remove p, rfl, sameDirectories_remove hdir, get?_remove (ne_nil_of_get? hdir)⟩

/-- A file is moved to where no directory stands. -/
theorem of_replace {source target : Path} (h : fs.replace source target = .ok fs') :
    ∃ p q content, fs.place? source = some p ∧ fs.get? p = some (.file content) ∧
      fs.place? target = some q ∧ fs.get? q ≠ some .directory ∧
      fs' = (fs.remove p).put q (.file content) := by
  unfold replace at h
  split at h
  · next p content hloc =>
    obtain ⟨hp, he⟩ := of_locate hloc
    split at h
    · exact absurd h (by simp)
    · next q e hne hloc' =>
      obtain ⟨hq, rfl⟩ := of_locate hloc'
      exact ⟨p, q, content, hp, he.symm, hq, hne, (Except.ok.inj h).symm⟩
    · exact absurd h (by simp)
    · exact absurd h (by simp)
  all_goals exact absurd h (by simp)

theorem get?_moved {q : Place} {content : List UInt8} (hp : fs.get? p = some (.file content))
    (hq : fs.get? q ≠ some .directory) (r : Place) :
    ((fs.remove p).put q (.file content)).get? r = if r = q then some (.file content)
      else if r = p then none else fs.get? r := by
  have hdir : fs.get? p ≠ some .directory := by rw [hp]; simp
  rw [get?_put (ne_nil_of_get? hq), get?_remove (ne_nil_of_get? hdir)]

theorem sameDirectories_moved {q : Place} {content : List UInt8}
    (hp : fs.get? p = some (.file content)) (hq : fs.get? q ≠ some .directory) :
    SameDirectories fs ((fs.remove p).put q (.file content)) := by
  have hremove : SameDirectories fs (fs.remove p) :=
    sameDirectories_remove (by rw [hp]; simp)
  exact hremove.trans (sameDirectories_put (fun h => hq ((hremove.iff q).1 h)) content)

end FileSystem

end DeclGraph
