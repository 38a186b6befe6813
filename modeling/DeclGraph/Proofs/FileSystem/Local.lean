import DeclGraph.Proofs.FileSystem.Basic

/-!
# What answers depend on

The answer of an operation depends on the directories and on what stands where its paths lead.  So
two file systems with the same directories that agree on some places answer alike, and go on
agreeing on these places, as long as the paths lead there (`FileSystem.Alike`); all other places
stay as they were.

A path that leads nowhere is refused in both, though they may say why in different words: a file
may stand in the way in only one of them.  `FileSystem.exists_congr` holds all the same, since a
question tells no more of such paths than that a name is too long.
-/

namespace DeclGraph

namespace FileSystem

variable {fs fs' : FileSystem} {path : Path} {p : Place}

/-! ### What is there -/

theorem at?_of_place? (h : fs.place? path = some p) : fs.at? path = fs.get? p := by
  rw [at?, h]
  rfl

theorem exists_of_at?_ne_none (h : fs.at? path ≠ none) :
    ∃ p, fs.place? path = some p ∧ fs.get? p ≠ none := by
  cases hplace : fs.place? path with
  | none =>
    rw [at?, hplace] at h
    exact absurd rfl h
  | some p =>
    rw [at?_of_place? hplace] at h
    exact ⟨p, rfl, h⟩

/-- What a question finds is there. -/
theorem at?_ne_none_of_exists (h : fs.exists path = .ok true) : fs.at? path ≠ none := by
  unfold «exists» at h
  split at h
  · next p e hloc =>
    obtain ⟨hplace, rfl⟩ := of_locate hloc
    rw [at?_of_place? hplace]
    exact Option.isSome_iff_ne_none.1 (Except.ok.inj h)
  · exact absurd h (by simp)
  · exact absurd h (by simp)

theorem exists_of_at? (h : fs.at? path ≠ none) : fs.exists path = .ok true := by
  obtain ⟨p, hplace, hthere⟩ := exists_of_at?_ne_none h
  rw [exists_eq_of_place? hplace, Option.isSome_iff_ne_none.2 hthere]

/-- No walk is refused since something is there. -/
theorem walk_ne_exists (here : Place) (names : List String) :
    fs.walk here names ≠ .error .exists := by
  induction names generalizing here with
  | nil => simp [walk]
  | cons name rest ih =>
    cases rest with
    | nil =>
      rw [walk_singleton]
      split_ifs <;> simp
    | cons next rest =>
      rw [walk_cons_cons]
      split_ifs
      · simp
      · exact ih _
      · simp
      · simp
      · exact ih _

/-- A path is refused for its form in every file system, or it is located where its names lead. -/
theorem locate_eq (path : Path) :
    (∃ e, (∀ q, e ≠ .refused .exists q) ∧ ∀ fs : FileSystem, fs.locate path = .error e) ∨
      ∀ fs : FileSystem, fs.locate path
        = (fs.walk (fs.startOf path) path.names).mapError fun cause => .refused cause path := by
  by_cases hnull : (path.names.any fun name => name.toList.contains '\x00') = true
  · refine .inl ⟨.embeddedNull, by simp, fun fs => ?_⟩
    rw [locate, if_pos hnull]
  by_cases hlong : pathLimit < path.text.utf8ByteSize
  · refine .inl ⟨.refused .nameTooLong path, by simp, fun fs => ?_⟩
    rw [locate, if_neg hnull, if_pos hlong]
  · refine .inr fun fs => ?_
    rw [locate, if_neg hnull, if_neg hlong]
    rfl

theorem locate_ne_exists (path q : Path) : fs.locate path ≠ .error (.refused .exists q) := by
  intro h
  rcases locate_eq path with ⟨e, hne, hloc⟩ | hloc
  · rw [hloc] at h
    exact hne q (Except.error.inj h)
  · rw [hloc] at h
    cases hwalk : fs.walk (fs.startOf path) path.names with
    | ok x =>
      rw [hwalk] at h
      exact absurd h (by simp [Except.mapError])
    | error c =>
      rw [hwalk] at h
      obtain ⟨rfl, -⟩ := FileError.refused.inj (Except.error.inj h)
      exact walk_ne_exists _ _ hwalk

/-- A file that cannot be created since something is there. -/
theorem at?_ne_none_of_createExclusive {q : Path}
    (h : fs.createExclusive path = .error (.refused .exists q)) : fs.at? path ≠ none := by
  unfold createExclusive at h
  split at h
  · exact absurd h (by simp)
  · next p e hloc =>
    obtain ⟨hplace, he⟩ := of_locate hloc
    rw [at?_of_place? hplace, ← he]
    simp
  · next e hloc =>
    obtain rfl := Except.error.inj h
    exact absurd hloc (locate_ne_exists path q)

/-- A path that leads somewhere is only refused since something is there. -/
theorem place?_eq_none_of_createExclusive {e : FileError} (h : fs.createExclusive path = .error e)
    (hother : ∀ q, e ≠ .refused .exists q) : fs.place? path = none := by
  cases hplace : fs.place? path with
  | none => rfl
  | some p =>
    rw [createExclusive, locate_of_place? hplace] at h
    cases hentry : fs.get? p with
    | none =>
      rw [hentry] at h
      exact absurd h (by simp)
    | some entry =>
      rw [hentry] at h
      exact absurd (Except.error.inj h).symm (hother _)

theorem createExclusive_of_at? (h : fs.at? path ≠ none) :
    fs.createExclusive path = .error (.refused .exists path) := by
  obtain ⟨p, hplace, hthere⟩ := exists_of_at?_ne_none h
  obtain ⟨e, he⟩ := Option.ne_none_iff_exists'.1 hthere
  rw [createExclusive, locate_of_place? hplace, he]

/-! ### Questions -/

/-- Names that are too long are so wherever the directories are the same. -/
theorem walk_nameTooLong (h : SameDirectories fs fs') {here : Place} {names : List String}
    (hwalk : fs.walk here names = .error .nameTooLong) :
    fs'.walk here names = .error .nameTooLong := by
  induction names generalizing here with
  | nil => exact absurd hwalk (by simp [walk])
  | cons name rest ih =>
    cases rest with
    | nil =>
      rw [walk_singleton] at hwalk
      split_ifs at hwalk with hdir hup hlong
      · exact absurd hwalk (by simp)
      · rw [walk_singleton, if_neg (not_not.2 ((h.iff _).2 (not_not.1 hdir))), if_neg hup,
          if_pos hlong]
    | cons next rest =>
      rw [walk_cons_cons] at hwalk
      split_ifs at hwalk with hdir hup hlong hnone
      · exact absurd hwalk (by simp)
      all_goals
        rw [walk_cons_cons, if_neg (not_not.2 ((h.iff _).2 (not_not.1 hdir)))]
      · rw [if_pos hup]
        exact ih hwalk
      · rw [if_neg hup, if_pos hlong]
      · exact absurd hwalk (by simp)
      · -- a file in the way would have been told first
        have hthere : fs.get? (here ++ [name]) = some .directory := by
          by_contra hfile
          rw [walk, if_pos hfile] at hwalk
          exact absurd hwalk (by simp)
        rw [if_neg hup, if_neg hlong, if_neg (by rw [(h.iff _).2 hthere]; simp)]
        exact ih hwalk

theorem locate_nameTooLong (h : SameDirectories fs fs') {q : Path}
    (hloc : fs.locate path = .error (.refused .nameTooLong q)) :
    fs'.locate path = .error (.refused .nameTooLong q) := by
  rcases locate_eq path with ⟨e, -, heq⟩ | heq
  · rw [heq] at hloc ⊢
    exact hloc
  · rw [heq] at hloc ⊢
    have hstart : fs'.startOf path = fs.startOf path := by
      rw [startOf, startOf, h.workingDirectory]
    cases hwalk : fs.walk (fs.startOf path) path.names with
    | ok x =>
      rw [hwalk] at hloc
      exact absurd hloc (by simp [Except.mapError])
    | error c =>
      rw [hwalk] at hloc
      obtain ⟨rfl, rfl⟩ := FileError.refused.inj (Except.error.inj hloc)
      rw [hstart, walk_nameTooLong h hwalk]
      rfl

/-- A question is only refused on account of a name that is too long. -/
theorem exists_eq_error_iff {e : FileError} : fs.exists path = .error e ↔
    ∃ q, e = .refused .nameTooLong q ∧ fs.locate path = .error (.refused .nameTooLong q) := by
  unfold «exists»
  constructor
  · intro h
    split at h
    · exact absurd h (by simp)
    · next q hloc => exact ⟨q, (Except.error.inj h).symm, hloc⟩
    · exact absurd h (by simp)
  · rintro ⟨q, rfl, hloc⟩
    rw [hloc]

theorem exists_error_congr (h : SameDirectories fs fs') {e : FileError}
    (herror : fs.exists path = .error e) : fs'.exists path = .error e := by
  obtain ⟨q, rfl, hloc⟩ := exists_eq_error_iff.1 herror
  exact exists_eq_error_iff.2 ⟨q, rfl, locate_nameTooLong h hloc⟩

/-- A question has the same answer wherever the directories are the same, and what is there. -/
theorem exists_congr (h : SameDirectories fs fs')
    (heq : ∀ p, fs.place? path = some p → fs'.get? p = fs.get? p) :
    fs'.exists path = fs.exists path := by
  cases hplace : fs.place? path with
  | some p =>
    have hplace' : fs'.place? path = some p := (h.place?_eq path).trans hplace
    rw [exists_eq_of_place? hplace, exists_eq_of_place? hplace', heq p hplace]
  | none =>
    -- a path that leads to no place has an error, or nothing is there
    have hfalse {gs : FileSystem} (hgs : gs.place? path = none) {there : Bool}
        (hok : gs.exists path = .ok there) : there = false := by
      cases there with
      | false => rfl
      | true =>
        obtain ⟨p, hp, -⟩ := exists_of_at?_ne_none (at?_ne_none_of_exists hok)
        exact absurd (hgs.symm.trans hp) (by simp)
    have hplace' : fs'.place? path = none := (h.place?_eq path).trans hplace
    cases hexists : fs.exists path with
    | error e => exact exists_error_congr h hexists
    | ok there =>
      cases hexists' : fs'.exists path with
      | error e =>
        rw [exists_error_congr h.symm hexists'] at hexists
        exact absurd hexists (by simp)
      | ok there' => rw [hfalse hplace hexists, hfalse hplace' hexists']

/-! ### Changes -/

/-- Two file systems answer alike to a change: both refuse it, or both agree on some places
afterwards, and the second one stays as it was everywhere else. -/
inductive Alike (S : Place → Prop) (fs : FileSystem) :
    Except FileError FileSystem → Except FileError FileSystem → Prop
  /-- Both refuse. -/
  | refused (e : FileError) : Alike S fs (.error e) (.error e)
  /-- Both change. -/
  | changed {fs₁ fs₂ : FileSystem} (agree : ∀ p, S p → fs₂.get? p = fs₁.get? p)
    (same : SameDirectories fs fs₂) (frame : ∀ p, ¬ S p → fs₂.get? p = fs.get? p) :
    Alike S fs (.ok fs₁) (.ok fs₂)

section

variable {S : Place → Prop} (hplace : fs.place? path = some p) (hplace' : fs'.place? path = some p)
  (hp : S p) (hagree : ∀ q, S q → fs'.get? q = fs.get? q)

include hp hagree

theorem Alike.put (hdir : fs.get? p ≠ some .directory) (content : List UInt8) :
    Alike S fs' (.ok (fs.put p (.file content))) (.ok (fs'.put p (.file content))) := by
  have hdir' : fs'.get? p ≠ some .directory := by rwa [hagree p hp]
  refine .changed (fun q hq => ?_) (sameDirectories_put hdir' content) fun q hq => ?_
  · rw [get?_put (ne_nil_of_get? hdir), get?_put (ne_nil_of_get? hdir'), hagree q hq]
  · have hne : q ≠ p := fun heq => hq (heq ▸ hp)
    rw [get?_put (ne_nil_of_get? hdir'), if_neg hne]

include hplace hplace'

theorem alike_createExclusive :
    Alike S fs' (fs.createExclusive path) (fs'.createExclusive path) := by
  rw [createExclusive, createExclusive, locate_of_place? hplace, locate_of_place? hplace',
    hagree p hp]
  cases hentry : fs.get? p with
  | none => exact .put hp hagree (by rw [hentry]; simp) []
  | some e => exact .refused _

theorem alike_openEmpty : Alike S fs' (fs.openEmpty path) (fs'.openEmpty path) := by
  rw [openEmpty, openEmpty, locate_of_place? hplace, locate_of_place? hplace', hagree p hp]
  cases hentry : fs.get? p with
  | none => exact .put hp hagree (by rw [hentry]; simp) []
  | some e =>
    cases e with
    | directory => exact .refused _
    | file content => exact .put hp hagree (by rw [hentry]; simp) []

theorem alike_write (content : List UInt8) :
    Alike S fs' (fs.write path content) (fs'.write path content) := by
  rw [write, write, locate_of_place? hplace, locate_of_place? hplace', hagree p hp]
  cases hentry : fs.get? p with
  | none => exact .put hp hagree (by rw [hentry]; simp) content
  | some e =>
    cases e with
    | directory => exact .refused _
    | file old => exact .put hp hagree (by rw [hentry]; simp) content

theorem alike_unlinkIfThere :
    Alike S fs' (fs.unlinkIfThere path) (fs'.unlinkIfThere path) := by
  rw [unlinkIfThere_eq hplace, unlinkIfThere_eq hplace', hagree p hp]
  cases hentry : fs.get? p with
  | none => exact .changed hagree (.refl fs') fun q _ => rfl
  | some e =>
    cases e with
    | directory => exact .refused _
    | file content =>
      have hdir : fs.get? p ≠ some .directory := by rw [hentry]; simp
      have hdir' : fs'.get? p ≠ some .directory := by rwa [hagree p hp]
      refine .changed (fun q hq => ?_) (sameDirectories_remove hdir') fun q hq => ?_
      · rw [get?_remove (ne_nil_of_get? hdir), get?_remove (ne_nil_of_get? hdir'), hagree q hq]
      · have hne : q ≠ p := fun heq => hq (heq ▸ hp)
        rw [get?_remove (ne_nil_of_get? hdir'), if_neg hne]

theorem alike_replace {target : Path} {goal : Place} (htarget : fs.place? target = some goal)
    (htarget' : fs'.place? target = some goal) (hgoal : S goal) :
    Alike S fs' (fs.replace path target) (fs'.replace path target) := by
  rw [replace, replace, locate_of_place? hplace, locate_of_place? hplace', hagree p hp]
  cases hentry : fs.get? p with
  | none => exact .refused _
  | some e =>
    cases e with
    | directory => exact .refused _
    | file content =>
      dsimp only
      rw [locate_of_place? htarget, locate_of_place? htarget', hagree goal hgoal]
      have hentry' : fs'.get? p = some (.file content) := (hagree p hp).trans hentry
      -- a file is moved to a place that is no directory: both file systems change at the same two
      -- places
      have hmoves (hdir : fs.get? goal ≠ some .directory) :
          Alike S fs' (.ok ((fs.remove p).put goal (.file content)))
            (.ok ((fs'.remove p).put goal (.file content))) := by
        have hdir' : fs'.get? goal ≠ some .directory := by rwa [hagree goal hgoal]
        refine .changed (fun q hq => ?_) (sameDirectories_moved hentry' hdir') fun q hq => ?_
        · rw [get?_moved hentry hdir, get?_moved hentry' hdir', hagree q hq]
        · have hne : q ≠ p := fun heq => hq (heq ▸ hp)
          have hne' : q ≠ goal := fun heq => hq (heq ▸ hgoal)
          rw [get?_moved hentry' hdir', if_neg hne', if_neg hne]
      cases hgoalentry : fs.get? goal with
      | none => exact hmoves (by rw [hgoalentry]; simp)
      | some e =>
        cases e with
        | directory => exact .refused _
        | file old => exact hmoves (by rw [hgoalentry]; simp)

end

end FileSystem

end DeclGraph
