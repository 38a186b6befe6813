import DeclGraph.Proofs.FileSystem.Directories

/-!
# Ways through a file system

The names of a path lead from place to place (`FileSystem.stops`), up at every `..` and down at any
other name, and at last to a goal (`FileSystem.goal`).  Making directories goes this way once: where
nothing stands it makes a directory, and a file or a name that is too long stops it
(`FileSystem.clear`).  `FileSystem.makeDirectories` works from the other end, and tries the whole path
first, but in a tree it comes to the same (`FileSystem.answers_makeDirectories`).

Seen so, what it does is a matter of the places on the way.  If a second file system has directories
more (`FileSystem.Adds`), and otherwise differs off the way, directories are made in both or in
neither, and it still has directories more (`FileSystem.Adds.makeDirectories`).
-/

namespace DeclGraph

namespace FileSystem

variable {fs fs' : FileSystem} {path : Path} {p here : Place} {name : String}
  {names rest : List String}

/-! ### Ways -/

/-- Where a name leads to from a place. -/
def toward (here : Place) (name : String) : Place :=
  if name = ".." then here.dropLast else here ++ [name]

/-- Where names lead to in the end. -/
def goalFrom : Place → List String → Place
  | here, [] => here
  | here, name :: rest => goalFrom (toward here name) rest

/-- The places that names lead to one after another. -/
def stopsFrom : Place → List String → List Place
  | _, [] => []
  | here, name :: rest => toward here name :: stopsFrom (toward here name) rest

/-- The place that a path leads to, whatever stands on the way. -/
def goal (fs : FileSystem) (path : Path) : Place := goalFrom (fs.startOf path) path.names

/-- The places that a path leads through, the last one included. -/
def stops (fs : FileSystem) (path : Path) : List Place := stopsFrom (fs.startOf path) path.names

/-- Makes the directories that are missing on a way; whether nothing stood in it. -/
def clear : FileSystem → Place → List String → FileSystem × Bool
  | fs, _, [] => (fs, true)
  | fs, here, name :: rest =>
    if name = ".." then fs.clear here.dropLast rest
    else if nameLimit < name.utf8ByteSize then (fs, false)
    else
      match fs.get? (here ++ [name]) with
      | none => (fs.put (here ++ [name]) .directory).clear (here ++ [name]) rest
      | some .directory => fs.clear (here ++ [name]) rest
      | some (.file _) => (fs, false)

@[simp] theorem toward_up (here : Place) : toward here ".." = here.dropLast := if_pos rfl

theorem toward_of_ne (h : name ≠ "..") : toward here name = here ++ [name] := if_neg h

/-! ### Walking -/

/-- A walk takes one step at a time. -/
theorem walk_cons_of_directory (hhere : fs.get? here = some .directory)
    (hthere : fs.get? (toward here name) = some .directory)
    (hshort : name = ".." ∨ name.utf8ByteSize ≤ nameLimit) (rest : List String) :
    fs.walk here (name :: rest) = fs.walk (toward here name) rest := by
  rw [walk, if_neg (not_not.2 hhere)]
  by_cases hup : name = ".."
  · rw [if_pos hup, hup, toward_up]
  · rw [toward_of_ne hup] at hthere ⊢
    rw [if_neg hup, if_neg (not_lt.2 (hshort.resolve_left hup))]
    dsimp only
    rw [hthere]

/-- A walk through directories goes on from where it has come to. -/
theorem walk_append (h : fs.walk here names = .ok (p, some .directory)) (rest : List String) :
    fs.walk here (names ++ rest) = fs.walk p rest := by
  induction names generalizing here with
  | nil =>
    obtain ⟨rfl, -⟩ := Prod.mk.inj (Except.ok.inj h)
    rfl
  | cons name names ih =>
    have hhere := directory_of_walk h
    rw [walk, if_neg (not_not.2 hhere)] at h
    rw [List.cons_append, walk, if_neg (not_not.2 hhere)]
    -- up, a name that is too long, or on to what is there
    split_ifs at h ⊢ with hup hlong
    · exact ih h
    · dsimp only at h ⊢
      cases hentry : fs.get? (here ++ [name]) with
      | none =>
        rw [hentry] at h
        cases names with
        | nil => exact absurd h (by simp)
        | cons next names => exact absurd h (by simp)
      | some e =>
        rw [hentry] at h
        exact ih h

/-! ### Directories that are made on the way -/

/-- The way goes on behind a name, with what is made of the files there. -/
inductive Passes (fs : FileSystem) (here : Place) (name : String) : FileSystem → Prop
  /-- It goes up. -/
  | up (hup : name = "..") : Passes fs here name fs
  /-- A directory is there. -/
  | there (hup : name ≠ "..") (hshort : name.utf8ByteSize ≤ nameLimit)
    (hentry : fs.get? (here ++ [name]) = some .directory) : Passes fs here name fs
  /-- A directory is made. -/
  | made (hup : name ≠ "..") (hshort : name.utf8ByteSize ≤ nameLimit)
    (hentry : fs.get? (here ++ [name]) = none) :
    Passes fs here name (fs.put (here ++ [name]) .directory)

/-- The way ends at a name. -/
inductive Blocked (fs : FileSystem) (here : Place) (name : String) : Prop
  /-- The name is too long. -/
  | long (hup : name ≠ "..") (hlong : nameLimit < name.utf8ByteSize)
  /-- A file is there. -/
  | file {content : List UInt8} (hup : name ≠ "..") (hshort : name.utf8ByteSize ≤ nameLimit)
    (hentry : fs.get? (here ++ [name]) = some (.file content))

theorem passes_or_blocked (fs : FileSystem) (here : Place) (name : String) :
    (∃ fs₁, Passes fs here name fs₁) ∨ Blocked fs here name := by
  by_cases hup : name = ".."
  · exact .inl ⟨fs, .up hup⟩
  · rcases Nat.lt_or_ge nameLimit name.utf8ByteSize with hlong | hshort
    · exact .inr (.long hup hlong)
    · cases hentry : fs.get? (here ++ [name]) with
      | none => exact .inl ⟨_, .made hup hshort hentry⟩
      | some e =>
        cases e with
        | directory => exact .inl ⟨fs, .there hup hshort hentry⟩
        | file content => exact .inr (.file hup hshort hentry)

theorem Passes.clear_cons {fs₁ : FileSystem} (h : Passes fs here name fs₁) (rest : List String) :
    fs.clear here (name :: rest) = fs₁.clear (toward here name) rest := by
  cases h with
  | up hup => rw [clear, if_pos hup, hup, toward_up]
  | there hup hshort hentry =>
    rw [clear, if_neg hup, if_neg (not_lt.2 hshort), hentry, toward_of_ne hup]
  | made hup hshort hentry =>
    rw [clear, if_neg hup, if_neg (not_lt.2 hshort), hentry, toward_of_ne hup]

theorem Blocked.clear_cons (h : Blocked fs here name) (rest : List String) :
    fs.clear here (name :: rest) = (fs, false) := by
  cases h with
  | long hup hlong => rw [clear, if_neg hup, if_pos hlong]
  | file hup hshort hentry => rw [clear, if_neg hup, if_neg (not_lt.2 hshort), hentry]

theorem Passes.short {fs₁ : FileSystem} (h : Passes fs here name fs₁) :
    name = ".." ∨ name.utf8ByteSize ≤ nameLimit := by
  cases h with
  | up hup => exact .inl hup
  | there _ hshort _ | made _ hshort _ => exact .inr hshort

theorem Passes.keeps {fs₁ : FileSystem} (h : Passes fs here name fs₁) :
    KeepsDirectories fs fs₁ := by
  cases h with
  | up | there => exact .refl fs
  | made => exact keepsDirectories_put (by simp)

/-- In a tree the way goes on from a directory. -/
theorem Passes.directory {fs₁ : FileSystem} (h : Passes fs here name fs₁) (htree : fs.IsTree)
    (hhere : fs.get? here = some .directory) :
    fs₁.IsTree ∧ fs₁.get? (toward here name) = some .directory := by
  cases h with
  | up hup =>
    rw [hup, toward_up]
    exact ⟨htree, htree.dropLast hhere⟩
  | there hup _ hentry =>
    rw [toward_of_ne hup]
    exact ⟨htree, hentry⟩
  | made hup _ hentry =>
    have hne : here ++ [name] ≠ [] := by simp
    have hparent : fs.get? (here ++ [name]).dropLast = some .directory := by
      rw [List.dropLast_concat, hhere]
    rw [toward_of_ne hup, get?_put hne, if_pos rfl]
    exact ⟨htree.put hne hparent (keepsDirectories_put hne), rfl⟩

/-- A way that has been gone: directories are kept, a tree stays one, and where nothing stood in the
way a walk leads to its goal. -/
structure Cleared (fs : FileSystem) (here : Place) (names : List String) : Prop where
  /-- Directories stay. -/
  keeps : KeepsDirectories fs (fs.clear here names).1
  /-- A tree stays one. -/
  isTree : (fs.clear here names).1.IsTree
  /-- The goal is there. -/
  walk : (fs.clear here names).2 = true →
    (fs.clear here names).1.walk here names = .ok (goalFrom here names, some .directory)

theorem cleared (htree : fs.IsTree) (hhere : fs.get? here = some .directory)
    (names : List String) : Cleared fs here names := by
  induction names generalizing fs here with
  | nil =>
    refine ⟨.refl fs, htree, fun _ => ?_⟩
    rw [clear, FileSystem.walk, hhere]
    rfl
  | cons name rest ih =>
    -- either the next name is cleared and the rest follows from there, or the way ends here
    rcases fs.passes_or_blocked here name with ⟨fs₁, hpasses⟩ | hblocked
    · obtain ⟨htree₁, hthere⟩ := hpasses.directory htree hhere
      have h := ih htree₁ hthere
      have hkeeps : KeepsDirectories fs (fs₁.clear (toward here name) rest).1 :=
        hpasses.keeps.trans h.keeps
      rw [← hpasses.clear_cons] at hkeeps
      refine ⟨hkeeps, ?_, fun hthrough => ?_⟩
      · rw [hpasses.clear_cons]
        exact h.isTree
      · rw [hpasses.clear_cons] at hkeeps hthrough ⊢
        rw [walk_cons_of_directory (hkeeps.keeps _ hhere) (h.keeps.keeps _ hthere)
          hpasses.short, h.walk hthrough, goalFrom]
    · refine ⟨?_, ?_, fun hthrough => ?_⟩
      · rw [hblocked.clear_cons]
        exact .refl fs
      · rw [hblocked.clear_cons]
        exact htree
      · rw [hblocked.clear_cons] at hthrough
        exact absurd hthrough Bool.false_ne_true

/-- The last part of a way is gone where the first part is clear. -/
theorem clear_append (fs : FileSystem) (here : Place) (names rest : List String) :
    fs.clear here (names ++ rest) =
      if (fs.clear here names).2 then (fs.clear here names).1.clear (goalFrom here names) rest
      else fs.clear here names := by
  induction names generalizing fs here with
  | nil => rfl
  | cons name names ih =>
    rcases fs.passes_or_blocked here name with ⟨fs₁, hpasses⟩ | hblocked
    · rw [List.cons_append, hpasses.clear_cons, hpasses.clear_cons, ih, goalFrom]
    · rw [List.cons_append, hblocked.clear_cons, hblocked.clear_cons]
      rfl

/-! ### Making directories -/

/-- What a walk finds says what clearing the way comes to: all is there, or only the last directory
is missing, or something stands in the way.  Of a directory that is missing before that it tells
nothing more. -/
def Foretells (fs : FileSystem) (here : Place) (names : List String) :
    Except FileCause (Place × Option Entry) → Prop
  | .ok (_, some .directory) => fs.clear here names = (fs, true)
  | .ok (_, some (.file _)) => fs.clear here names = (fs, false)
  | .ok (p, none) => fs.clear here names = (fs.put p .directory, true)
  | .error .notFound => 2 ≤ names.length
  | .error _ => fs.clear here names = (fs, false)

theorem Foretells.cons {found : Except FileCause (Place × Option Entry)}
    (hpasses : Passes fs here name fs) (h : Foretells fs (toward here name) rest found) :
    Foretells fs here (name :: rest) found := by
  unfold Foretells at h ⊢
  rw [hpasses.clear_cons]
  split at h
  · exact h
  · exact h
  · exact h
  · exact Nat.le_succ_of_le h
  · exact h

theorem foretells_walk (htree : fs.IsTree) (hhere : fs.get? here = some .directory)
    (names : List String) : Foretells fs here names (fs.walk here names) := by
  induction names generalizing here with
  | nil =>
    rw [walk, hhere]
    exact rfl
  | cons name rest ih =>
    rcases fs.passes_or_blocked here name with ⟨fs₁, hpasses⟩ | hblocked
    · have hstep (hsame : fs₁ = fs) : Foretells fs here (name :: rest)
          (fs.walk here (name :: rest)) := by
        rw [hsame] at hpasses
        have hthere := (hpasses.directory htree hhere).2
        rw [walk_cons_of_directory hhere hthere hpasses.short]
        exact (ih hthere).cons hpasses
      cases hpasses with
      | up => exact hstep rfl
      | there => exact hstep rfl
      -- a directory is missing here: the walk stops, at once or at the last name, where clearing
      -- goes on
      | made hup hshort hentry =>
        cases rest with
        | nil =>
          rw [walk_last hhere hup hshort, hentry]
          exact (Passes.made hup hshort hentry).clear_cons []
        | cons next rest =>
          rw [walk_cons_cons, if_neg (not_not.2 hhere), if_neg hup, if_neg (not_lt.2 hshort),
            if_pos hentry]
          exact Nat.le_add_left 2 _
    · have hclear := hblocked.clear_cons rest
      cases hblocked with
      | long hup hlong =>
        rw [walk, if_neg (not_not.2 hhere), if_neg hup, if_pos hlong]
        exact hclear
      | file hup hshort hentry =>
        cases rest with
        | nil =>
          rw [walk_last hhere hup hshort, hentry]
          exact hclear
        | cons next rest =>
          have hfile : fs.get? (here ++ [name]) ≠ some .directory := by rw [hentry]; simp
          rw [walk_cons_cons, if_neg (not_not.2 hhere), if_neg hup, if_neg (not_lt.2 hshort),
            if_neg (by rw [hentry]; simp), walk, if_pos hfile]
          exact hclear

theorem locate_of_permits (h : Permits path) : fs.locate path
    = (fs.walk (fs.startOf path) path.names).mapError fun cause => .refused cause path := by
  have hnull : ¬ (path.names.any fun name => name.toList.contains '\x00') = true := by
    have := h.noNull
    simpa using this
  rw [locate, if_neg hnull, if_neg (not_lt.2 h.short)]
  rfl

/-- Making directories answers as clearing the way does: well, or with a refusal. -/
def Answers (cleared : FileSystem × Bool) (made : FileSystem × Except FileError Unit) : Prop :=
  made.1 = cleared.1 ∧ match made.2 with
    | .ok () => cleared.2 = true
    | .error e => cleared.2 = false ∧ e.isFromSystem = true

/-- What is there already, or stands in the way, settles the matter. -/
theorem settle_eq (c : FileCause) : fs.settle path true (.refused c path)
    = if fs.isDirectory path then .ok fs else .error (.refused c path) := by
  rw [settle]
  cases fs.isDirectory path <;> rfl

/-- Making one directory comes to the same as clearing the way to it, unless one before it is
missing. -/
theorem answers_makeDirectory (htree : fs.IsTree) (hpermits : Permits path) :
    (fs.makeDirectory path = .error (.refused .notFound path) ∧
        fs.walk (fs.startOf path) path.names = .error .notFound ∧ 2 ≤ path.names.length) ∨
      Answers (fs.clear (fs.startOf path) path.names)
        (match fs.makeDirectory path with
          | .ok fs' => (fs', .ok ())
          | .error e => (fs, (fs.settle path true e).map fun _ => ())) ∧
      ∀ q, fs.makeDirectory path ≠ .error (.refused .notFound q) := by
  have hforetells := foretells_walk htree (htree.startOf path) path.names
  have hlocate : fs.locate path = _ := locate_of_permits hpermits
  rw [makeDirectory, hlocate]
  -- where nothing is made, nothing changes either, and no directory is there
  have hrefused (c : FileCause) (hnot : fs.isDirectory path = false)
      (hclear : fs.clear (fs.startOf path) path.names = (fs, false)) :
      Answers (fs.clear (fs.startOf path) path.names)
        (fs, (fs.settle path true (.refused c path)).map fun _ => ()) := by
    rw [hclear, settle_eq, hnot, if_neg Bool.false_ne_true]
    exact ⟨rfl, rfl, rfl⟩
  cases hwalk : fs.walk (fs.startOf path) path.names with
  | error c =>
    rw [hwalk] at hforetells hlocate
    have hnot : fs.isDirectory path = false := by
      rw [isDirectory, hlocate]
      rfl
    cases c with
    | notFound => exact .inl ⟨rfl, rfl, hforetells⟩
    | «exists» | notDirectory | isDirectory | nameTooLong =>
      exact .inr ⟨hrefused _ hnot hforetells, by simp [Except.mapError]⟩
  | ok found =>
    obtain ⟨p, e⟩ := found
    rw [hwalk] at hforetells hlocate
    right
    cases e with
    | none =>
      refine ⟨?_, by simp [Except.mapError]⟩
      rw [show fs.clear (fs.startOf path) path.names = _ from hforetells]
      exact ⟨rfl, rfl⟩
    | some e =>
      refine ⟨?_, by simp [Except.mapError]⟩
      cases e with
      | file content =>
        have hnot : fs.isDirectory path = false := by
          rw [isDirectory, hlocate]
          rfl
        exact hrefused _ hnot hforetells
      | directory =>
        have hthere : fs.isDirectory path = true := by
          rw [isDirectory, hlocate]
          rfl
        dsimp only [Except.mapError]
        rw [show fs.clear (fs.startOf path) path.names = _ from hforetells, settle_eq, hthere,
          if_pos rfl]
        exact ⟨rfl, rfl⟩

/-- What is not missing on the way is the end of making directories. -/
theorem makeDirectoriesWithin_of_ne {existing : Bool} {depth : Nat}
    (h : ∀ q, fs.makeDirectory path ≠ .error (.refused .notFound q)) :
    makeDirectoriesWithin path existing depth fs =
      match fs.makeDirectory path with
      | .ok fs' => (fs', .ok ())
      | .error e => (fs, (fs.settle path existing e).map fun _ => ()) := by
  unfold makeDirectoriesWithin
  split
  · next hmake => rw [hmake]
  · next hmake => exact absurd hmake (h _)
  · next hmake => rw [hmake]

/-- What is missing on the way is made first. -/
theorem makeDirectoriesWithin_of_notFound {existing : Bool} {depth : Nat} {q : Path}
    (h : fs.makeDirectory path = .error (.refused .notFound q)) :
    makeDirectoriesWithin path existing (depth + 1) fs =
      match makeDirectoriesWithin path.parent true depth fs with
      | (fs, .error e) => (fs, .error e)
      | (fs, .ok ()) =>
        match fs.makeDirectory path with
        | .ok fs => (fs, .ok ())
        | .error (.refused .notFound _) => (fs, .error (.refused .notFound path))
        | .error e => (fs, (fs.settle path existing e).map fun _ => ()) := by
  have hunfold := makeDirectoriesWithin.eq_def path existing (depth + 1) fs
  dsimp only at hunfold
  rw [h] at hunfold
  exact hunfold

/-- The text of names is no shorter with one name more. -/
theorem utf8ByteSize_intercalate_le (names : List String) (name : String) :
    ("/".intercalate names).utf8ByteSize ≤ ("/".intercalate (names ++ [name])).utf8ByteSize := by
  induction names with
  | nil => simp
  | cons first names ih =>
    have hfirst {rest : List String} (hrest : rest ≠ []) :
        "/".intercalate (first :: rest) = first ++ "/" ++ "/".intercalate rest :=
      String.intercalate_cons_of_ne_nil hrest
    cases names with
    | nil =>
      rw [String.intercalate_singleton, List.singleton_append, hfirst (by simp),
        String.intercalate_singleton]
      simp only [String.utf8ByteSize_append]
      omega
    | cons next names =>
      rw [List.cons_append, hfirst (List.cons_ne_nil next names), hfirst (by simp)]
      simp only [String.utf8ByteSize_append] at ih ⊢
      omega

/-- What is above a path that is permitted is permitted. -/
theorem Permits.parent (h : Permits path) (hnil : path.names ≠ []) : Permits path.parent := by
  refine ⟨fun name hname => h.noNull name (List.mem_of_mem_dropLast hname), ?_⟩
  have hshort := h.short
  have hle := utf8ByteSize_intercalate_le path.names.dropLast (path.names.getLast hnil)
  rw [List.dropLast_concat_getLast] at hle
  unfold Path.text at hshort ⊢
  dsimp only [Path.parent] at hshort ⊢
  split
  · decide
  · simp only [String.utf8ByteSize_append]
    split at hshort
    · next hempty =>
      have hzero := congrArg String.utf8ByteSize (String.isEmpty_iff.1 hempty)
      simp only [String.utf8ByteSize_append, String.utf8ByteSize_empty] at hzero
      omega
    · simp only [String.utf8ByteSize_append] at hshort
      omega

theorem answers_makeDirectoriesWithin (htree : fs.IsTree) (hpermits : Permits path) {depth : Nat}
    (hdepth : path.names.length ≤ depth) :
    Answers (fs.clear (fs.startOf path) path.names)
      (makeDirectoriesWithin path true depth fs) := by
  induction depth generalizing path fs with
  | zero =>
    rcases answers_makeDirectory htree hpermits with ⟨-, -, hlength⟩ | ⟨hanswers, hne⟩
    · omega
    · rw [makeDirectoriesWithin_of_ne hne]
      exact hanswers
  | succ depth ih =>
    rcases answers_makeDirectory htree hpermits with ⟨hmissing, -, hlength⟩ | ⟨hanswers, hne⟩
    · rw [makeDirectoriesWithin_of_notFound hmissing]
      have hnil : path.names ≠ [] := by
        intro hnil
        rw [hnil] at hlength
        exact absurd hlength (by simp)
      have hparent := ih htree (hpermits.parent hnil)
        (by rw [Path.parent, List.length_dropLast]; omega)
      have hconcat := List.dropLast_concat_getLast hnil
      have hstart : fs.startOf path.parent = fs.startOf path := rfl
      have hcleared := cleared htree (htree.startOf path) path.names.dropLast
      rw [hstart] at hparent
      rw [← hconcat, clear_append]
      rcases hwithin : makeDirectoriesWithin path.parent true depth fs with ⟨fs₁, answer⟩
      rw [hwithin] at hparent
      obtain ⟨hfiles, hanswer⟩ := hparent
      cases answer with
      | error e =>
        obtain ⟨hstopped, hsystem⟩ := hanswer
        rw [show path.parent.names = path.names.dropLast from rfl] at hstopped hfiles
        rw [if_neg (by rw [hstopped]; exact Bool.false_ne_true)]
        exact ⟨hfiles, hstopped, hsystem⟩
      | ok u =>
        -- now that the directories above are there, the way to them is clear at once
        have hthrough : (fs.clear (fs.startOf path) path.names.dropLast).2 = true := hanswer
        have hfs₁ : (fs.clear (fs.startOf path) path.names.dropLast).1 = fs₁ := hfiles.symm
        rw [if_pos hthrough]
        have hwalk := hcleared.walk hthrough
        have htree₁ := hcleared.isTree
        have hstart₁ : fs₁.startOf path = fs.startOf path := by
          rw [startOf, startOf, ← hfs₁, hcleared.keeps.workingDirectory]
        rw [hfs₁] at hwalk htree₁ ⊢
        have hgone := foretells_walk htree₁ (htree₁.startOf path) path.names.dropLast
        rw [hstart₁, hwalk] at hgone
        have hclear : fs₁.clear (fs₁.startOf path) path.names
            = fs₁.clear (goalFrom (fs.startOf path) path.names.dropLast)
              [path.names.getLast hnil] := by
          have happend := fs₁.clear_append (fs.startOf path) path.names.dropLast
            [path.names.getLast hnil]
          rw [show fs₁.clear (fs.startOf path) path.names.dropLast = (fs₁, true) from hgone,
            if_pos rfl, hconcat] at happend
          rw [hstart₁, happend]
        dsimp only
        rw [← hclear]
        rcases answers_makeDirectory htree₁ hpermits with ⟨-, hnotFound, -⟩ | ⟨hanswers, hne⟩
        · rw [hstart₁, ← hconcat, walk_append hwalk, walk_singleton] at hnotFound
          split_ifs at hnotFound <;> exact absurd hnotFound (by simp)
        · cases hmake : fs₁.makeDirectory path with
          | ok fs₂ =>
            rw [hmake] at hanswers
            exact hanswers
          | error e =>
            rw [hmake] at hanswers
            split
            · next heq => exact absurd heq (by simp)
            · next heq => exact absurd (hmake.trans heq) (hne _)
            · next heq =>
              obtain rfl := Except.error.inj heq
              exact hanswers
    · rw [makeDirectoriesWithin_of_ne hne]
      exact hanswers

/-- Making the directories of a path comes to the same as clearing the way. -/
theorem answers_makeDirectories (htree : fs.IsTree) (hpermits : Permits path) :
    Answers (fs.clear (fs.startOf path) path.names) (fs.makeDirectories path true) :=
  answers_makeDirectoriesWithin htree hpermits (Nat.le_refl _)

/-- A path that is not permitted is refused in every file system in the same words. -/
theorem makeDirectories_of_not_permits (h : ¬ Permits path) :
    ∃ e, ∀ fs : FileSystem, fs.makeDirectories path true = (fs, .error e) := by
  -- a path is refused for its own text alone
  obtain ⟨e, hne, hlocate⟩ : ∃ e, (∀ q, e ≠ .refused .notFound q) ∧
      ∀ fs : FileSystem, fs.locate path = .error e := by
    by_cases hnull : (path.names.any fun name => name.toList.contains '\x00') = true
    · refine ⟨.embeddedNull, by simp, fun fs => ?_⟩
      rw [locate, if_pos hnull]
    · by_cases hlong : pathLimit < path.text.utf8ByteSize
      · refine ⟨.refused .nameTooLong path, by simp, fun fs => ?_⟩
        rw [locate, if_neg hnull, if_pos hlong]
      · exact absurd ⟨by simpa using hnull, not_lt.1 hlong⟩ h
  refine ⟨e, fun fs => ?_⟩
  have hmake : fs.makeDirectory path = .error e := by rw [makeDirectory, hlocate]
  have hnot : fs.isDirectory path = false := by rw [isDirectory, hlocate]
  have hsettle : fs.settle path true e = .error e := by
    rw [settle, hnot, Bool.and_false]
    rfl
  rw [makeDirectories, makeDirectoriesWithin_of_ne, hmake]
  · dsimp only
    rw [hsettle]
    rfl
  · intro q heq
    exact hne q (Except.error.inj (hmake.symm.trans heq))

/-- The directory that has been made is where its path leads. -/
theorem walk_of_makeDirectories (htree : fs.IsTree)
    (h : (fs.makeDirectories path true).2 = .ok ()) :
    (fs.makeDirectories path true).1.walk (fs.startOf path) path.names
      = .ok (fs.goal path, some .directory) := by
  by_cases hpermits : Permits path
  · obtain ⟨hfiles, hanswer⟩ := answers_makeDirectories htree hpermits
    rw [h] at hanswer
    rw [hfiles]
    exact (cleared htree (htree.startOf path) path.names).walk hanswer
  · obtain ⟨e, hrefused⟩ := makeDirectories_of_not_permits hpermits
    rw [hrefused fs] at h
    exact absurd h (by simp)

/-! ### More directories -/

/-- A file system has some directories more than another one, and differs from it at one place
besides. -/
structure Adds (New : Place → Prop) (p : Place) (fs fs' : FileSystem) : Prop where
  /-- The working directory is the same. -/
  workingDirectory : fs'.workingDirectory = fs.workingDirectory
  /-- The new directories are there; in the other file system they may be there too. -/
  new : ∀ q, New q → fs'.get? q = some .directory ∧
    (fs.get? q = none ∨ fs.get? q = some .directory)
  /-- Everything else is the same. -/
  same : ∀ q, q ≠ p → ¬ New q → fs'.get? q = fs.get? q

namespace Adds

variable {New : Place → Prop}

theorem startOf_eq (h : Adds New p fs fs') (path : Path) : fs'.startOf path = fs.startOf path := by
  rw [startOf, startOf, h.workingDirectory]

/-- Something else that is put in both is the same in both. -/
theorem put (h : Adds New p fs fs') {q : Place} (hq : q ≠ []) (hnew : ¬ New q) (e : Entry) :
    Adds New p (fs.put q e) (fs'.put q e) := by
  refine ⟨h.workingDirectory, fun r hr => ?_, fun r hr hnot => ?_⟩
  · have hne : r ≠ q := fun heq => hnew (heq ▸ hr)
    rw [get?_put hq, get?_put hq, if_neg hne, if_neg hne]
    exact h.new r hr
  · rw [get?_put hq, get?_put hq]
    split_ifs
    · rfl
    · exact h.same r hr hnot

/-- What is removed from both is gone from both. -/
theorem remove (h : Adds New p fs fs') {q : Place} (hq : q ≠ []) (hnew : ¬ New q) :
    Adds New p (fs.remove q) (fs'.remove q) := by
  refine ⟨h.workingDirectory, fun r hr => ?_, fun r hr hnot => ?_⟩
  · have hne : r ≠ q := fun heq => hnew (heq ▸ hr)
    rw [get?_remove hq, get?_remove hq, if_neg hne, if_neg hne]
    exact h.new r hr
  · rw [get?_remove hq, get?_remove hq]
    split_ifs
    · rfl
    · exact h.same r hr hnot

/-- A new directory may also be made in the file system that lacks it. -/
theorem make (h : Adds New p fs fs') {q : Place} (hq : q ≠ []) (hnew : New q) :
    Adds New p (fs.put q .directory) fs' := by
  refine ⟨h.workingDirectory, fun r hr => ⟨(h.new r hr).1, ?_⟩, fun r hr hnot => ?_⟩
  · rw [get?_put hq]
    split_ifs
    · exact .inr rfl
    · exact (h.new r hr).2
  · have hne : r ≠ q := fun heq => hnot (heq ▸ hnew)
    rw [get?_put hq, if_neg hne]
    exact h.same r hr hnot

/-- One step on a way that keeps clear of the place. -/
theorem passes (h : Adds New p fs fs') (hp : toward here name ≠ p) {fs₁ : FileSystem}
    (hpasses : Passes fs here name fs₁) :
    ∃ fs₁', Passes fs' here name fs₁' ∧ Adds New p fs₁ fs₁' := by
  by_cases hnew : New (here ++ [name])
  · obtain ⟨hthere, -⟩ := h.new _ hnew
    cases hpasses with
    | up hup => exact ⟨fs', .up hup, h⟩
    | there hup hshort _ => exact ⟨fs', .there hup hshort hthere, h⟩
    | made hup hshort _ => exact ⟨fs', .there hup hshort hthere, h.make (by simp) hnew⟩
  · cases hpasses with
    | up hup => exact ⟨fs', .up hup, h⟩
    | there hup hshort hentry =>
      rw [toward_of_ne hup] at hp
      exact ⟨fs', .there hup hshort ((h.same _ hp hnew).trans hentry), h⟩
    | made hup hshort hentry =>
      rw [toward_of_ne hup] at hp
      exact ⟨_, .made hup hshort ((h.same _ hp hnew).trans hentry), h.put (by simp) hnew _⟩

theorem blocked (h : Adds New p fs fs') (hp : toward here name ≠ p)
    (hblocked : Blocked fs here name) : Blocked fs' here name := by
  cases hblocked with
  | long hup hlong => exact .long hup hlong
  | file hup hshort hentry =>
    rw [toward_of_ne hup] at hp
    refine .file hup hshort ((h.same _ hp fun hnew => ?_).trans hentry)
    -- where a directory is new there is no file
    rcases (h.new _ hnew).2 with hnone | hdirectory
    · rw [hnone] at hentry
      exact absurd hentry (by simp)
    · rw [hdirectory] at hentry
      exact absurd hentry (by simp)

/-- A way that keeps clear of the place is as clear with more directories as without. -/
theorem clear (h : Adds New p fs fs') (hp : p ∉ stopsFrom here names) :
    (fs'.clear here names).2 = (fs.clear here names).2 ∧
      Adds New p (fs.clear here names).1 (fs'.clear here names).1 := by
  induction names generalizing fs fs' here with
  | nil => exact ⟨rfl, h⟩
  | cons name rest ih =>
    rw [stopsFrom, List.mem_cons, not_or] at hp
    rcases fs.passes_or_blocked here name with ⟨fs₁, hpasses⟩ | hblocked
    · obtain ⟨fs₁', hpasses', h₁⟩ := h.passes (Ne.symm hp.1) hpasses
      rw [hpasses.clear_cons, hpasses'.clear_cons]
      exact ih h₁ hp.2
    · rw [hblocked.clear_cons, (h.blocked (Ne.symm hp.1) hblocked).clear_cons]
      exact ⟨rfl, h⟩

/-- Directories are made in both file systems or in neither, and one still has more of them. -/
theorem makeDirectories (h : Adds New p fs fs') (htree : fs.IsTree) (htree' : fs'.IsTree)
    (hp : p ∉ fs.stops path) :
    Adds New p (fs.makeDirectories path true).1 (fs'.makeDirectories path true).1 ∧
      ((fs.makeDirectories path true).2 = .ok () ∧ (fs'.makeDirectories path true).2 = .ok () ∨
        ∃ e e', (fs.makeDirectories path true).2 = .error e ∧
          (fs'.makeDirectories path true).2 = .error e' ∧
          (e = e' ∨ e.isFromSystem = true ∧ e'.isFromSystem = true)) := by
  by_cases hpermits : Permits path
  · obtain ⟨hfiles, hanswer⟩ := answers_makeDirectories htree hpermits
    obtain ⟨hfiles', hanswer'⟩ := answers_makeDirectories htree' hpermits
    obtain ⟨hthrough, hadds⟩ := h.clear hp
    rw [h.startOf_eq] at hfiles' hanswer'
    rw [hthrough] at hanswer'
    rw [hfiles, hfiles']
    refine ⟨hadds, ?_⟩
    -- one way is clear just when the other is, so two different answers cannot be
    cases hmade : (fs.makeDirectories path true).2 with
    | ok u =>
      rw [hmade] at hanswer
      cases hmade' : (fs'.makeDirectories path true).2 with
      | ok u' => exact .inl ⟨rfl, rfl⟩
      | error e' =>
        rw [hmade'] at hanswer'
        exact absurd (hanswer.symm.trans hanswer'.1) (by simp)
    | error e =>
      rw [hmade] at hanswer
      cases hmade' : (fs'.makeDirectories path true).2 with
      | ok u' =>
        rw [hmade'] at hanswer'
        exact absurd (hanswer.1.symm.trans hanswer') (by simp)
      | error e' =>
        rw [hmade'] at hanswer'
        exact .inr ⟨e, e', rfl, rfl, .inr ⟨hanswer.2, hanswer'.2⟩⟩
  · obtain ⟨e, hrefused⟩ := makeDirectories_of_not_permits hpermits
    rw [hrefused fs, hrefused fs']
    exact ⟨h, .inr ⟨e, e, rfl, rfl, .inl rfl⟩⟩

end Adds

end FileSystem

end DeclGraph
