import DeclGraph.Proofs.Batch.Exclusion
import DeclGraph.Proofs.Batch.Pool

/-!
# Batches are atomic

However the workers of a batch take their steps, and however the batch ends, the files are those
before it apart from three things: the output directory with those above it, the artifacts that
were dumped, each complete and at a place where nothing was, and older files where artifacts were
written first, which are gone (`Batch.atomic_of_isOver`).
-/

namespace DeclGraph

open FileSystem

/-! ### What is left while nobody is at work -/

/-- A worker that is not at work has finished, or it has not begun. -/
theorem Job.finished_or_looking {job : Job} (h : job.isBusy = false) (b : Batch) :
    (∃ v ending, job = .taken v ∧ v.phase = .finished ending) ∨
      (job.worker b).phase = .looking := by
  cases job with
  | waiting t => exact .inr rfl
  | cancelled t => exact .inr rfl
  | taken v =>
    obtain ⟨b', t, phase, attempt?⟩ := v
    cases phase with
    | finished ending => exact .inl ⟨_, ending, rfl, rfl⟩
    | looking | claiming | rechecking | yielding | parsing | opening | writing | replacing
    | discarding | releasing => exact absurd h (by simp [isBusy, ending?])

namespace Pool

variable {b : Batch} {p : Pool} {start : FileSystem}

theorem mem_workers {v : Worker} {i : Nat} (hi : (p.crew b).workers[i]? = some v) :
    ∃ job ∈ p.jobs, job.worker b = v := by
  obtain ⟨job, hjob, rfl⟩ := List.mem_map.1 (List.mem_of_getElem? hi)
  exact ⟨job, hjob, rfl⟩

theorem exists_getElem? {v : Worker} (hv : .taken v ∈ p.jobs) :
    ∃ i : Nat, (p.crew b).workers[i]? = some v :=
  List.mem_iff_getElem?.1 (List.mem_map.2 ⟨.taken v, hv, rfl⟩)

/-- Nobody is at work when nothing more happens. -/
theorem IsOver.isBusy_eq (hover : p.IsOver) : ∀ job ∈ p.jobs, job.isBusy = false :=
  fun job hjob => (hover job hjob).isBusy_eq

/-- What differs from the start while nobody is at work. -/
theorem changes_of_idle (hs : Crew.Sound start (p.crew b))
    (hidle : ∀ job ∈ p.jobs, job.isBusy = false) (q : Place) :
    p.files.get? q = start.get? q ∨ ∃ v, .taken v ∈ p.jobs ∧
      ((v.phase.Dumped ∧ start.place? v.artifact = some q) ∨
        (v.Dumping ∧ start.place? (tempPath v.artifact) = some q ∧
          (∃ content, start.get? q = some (.file content)) ∧ p.files.get? q = none)) := by
  rcases hs.frame q with heq | ⟨i, v, hi, htouches⟩
  · exact .inl heq
  · right
    obtain ⟨job, hjob, rfl⟩ := mem_workers hi
    -- nobody is at work, so a worker has come to its end or has not begun
    rcases Job.finished_or_looking (hidle job hjob) b with ⟨v, ending, rfl, hphase⟩ | hlooking
    · refine ⟨v, hjob, ?_⟩
      cases htouches with
      -- who is done has given its lock back and uses no file beside the artifact
      | lock holds =>
        have holds : v.phase.Holds := holds
        rw [hphase] at holds
        exact absurd holds id
      | temp busy =>
        have busy : v.phase.UsesTemp := busy
        rw [hphase] at busy
        exact absurd busy id
      | artifact dumped place => exact .inl ⟨dumped, place⟩
      | stale settled dumping place was gone => exact .inr ⟨dumping, place, was, gone⟩
    · cases htouches with
      | lock holds => rw [hlooking] at holds; exact absurd holds id
      | temp busy => rw [hlooking] at busy; exact absurd busy id
      | artifact dumped => exact absurd dumped (Phase.not_dumped (by rw [hlooking]; rfl))
      | stale settled => rw [hlooking] at settled; exact absurd rfl settled

end Pool

/-! ### Extensions -/

namespace Batch

variable {b : Batch} {directory : Path} {invs : List Invocation}

/-- What follows the last separator stays together. -/
theorem exists_splitAt_append (sep : Char) (cs : List Char) {tail : List Char} (h : sep ∉ tail) :
    ∃ front piece, splitAt sep (cs ++ tail) = front ++ [piece ++ tail] := by
  induction cs with
  | nil => exact ⟨[], [], splitAt_of_not_mem h⟩
  | cons c cs ih =>
    obtain ⟨front, piece, heq⟩ := ih
    rw [List.cons_append, splitAt, heq]
    split_ifs
    · exact ⟨[] :: front, piece, rfl⟩
    · cases front with
      | nil => exact ⟨[], c :: piece, rfl⟩
      | cons first front => exact ⟨(c :: first) :: front, piece, rfl⟩

/-- An artifact is called with the extension, if that is no part of a path. -/
theorem exists_name_artifactPath (input : String) (directory : Path) {extension : String}
    (hempty : extension ≠ "") (hslash : '/' ∉ extension.toList) :
    ∃ stem : List Char, (artifactPath input directory extension).name.toList
      = stem ++ '.' :: extension.toList := by
  -- a slash in the name of the input divides it, and only the last piece is the name
  obtain ⟨front, piece, hsplit⟩ := exists_splitAt_append '/'
    (withoutExtension (CapturedPath.lastName input).toList)
    (show '/' ∉ '.' :: extension.toList by simp [hslash])
  have hlist : extension.toList ≠ [] := fun h => hempty (String.toList_eq_nil_iff.1 h)
  have hname : (artifactName input extension).toList
      = withoutExtension (CapturedPath.lastName input).toList ++ '.' :: extension.toList := by
    simp [artifactName, String.toList_append]
  have hnames : ∃ names, Path.namesOf (artifactName input extension).toList
      = names ++ [String.ofList (piece ++ '.' :: extension.toList)] := by
    rw [Path.namesOf, hname, hsplit, List.filter_append, List.map_append]
    refine ⟨_, congrArg _ ?_⟩
    rw [List.filter_cons_of_pos, List.filter_nil, List.map_singleton]
    cases piece with
    | nil => simpa using hlist
    | cons c piece => simp
  obtain ⟨names, hnames⟩ := hnames
  refine ⟨piece, ?_⟩
  -- whether or not the name of the artifact is rooted, its last name is that piece
  have hlast (root : Root) (above : List String) :
      (Path.mk root (above ++ (names ++ [String.ofList (piece ++ '.' :: extension.toList)]))).name
        = String.ofList (piece ++ '.' :: extension.toList) := by
    rw [Path.name, ← List.append_assoc, List.getLastD_concat]
  rw [artifactPath, Path.child, Path.ofText, hnames]
  dsimp only
  split
  · rw [hlast, String.toList_ofList]
  · rw [show names ++ [String.ofList (piece ++ '.' :: extension.toList)]
      = [] ++ (names ++ [String.ofList (piece ++ '.' :: extension.toList)]) from rfl, hlast,
      String.toList_ofList]

/-- Texts that end alike behind their last point have the same extension. -/
theorem extension_inj {a b e e' : List Char} (he : '.' ∉ e) (he' : '.' ∉ e')
    (h : a ++ '.' :: e = b ++ '.' :: e') : e = e' := by
  rcases List.append_eq_append_iff.1 h with ⟨c, -, hc⟩ | ⟨c, -, hc⟩
  · cases c with
    | nil => exact (List.cons.inj hc).2
    | cons x c =>
      have hmem : '.' ∈ e := by rw [(List.cons.inj hc).2]; simp
      exact absurd hmem he
  · cases c with
    | nil => exact (List.cons.inj hc).2.symm
    | cons x c =>
      have hmem : '.' ∈ e' := by rw [(List.cons.inj hc).2]; simp
      exact absurd hmem he'

/-- The artifact of a task is named after a source. -/
theorem exists_artifactPath_of_mem_tasks {t : Task} (ht : t ∈ b.tasks directory invs) :
    ∃ source, t.artifact = artifactPath source directory b.settings.extension := by
  obtain ⟨plan, hplan, htask⟩ := List.mem_filterMap.1 ht
  obtain ⟨inv, -, hinv⟩ := List.mem_flatMap.1 hplan
  obtain ⟨input, -, rfl⟩ := List.mem_map.1 hinv
  rw [plan] at htask
  cases hexcluded : b.filter.excludes input with
  | true =>
    rw [hexcluded, if_pos rfl] at htask
    exact absurd htask (by simp [Plan.task?])
  | false =>
    rw [hexcluded, if_neg (by simp)] at htask
    dsimp only [Plan.task?] at htask
    have hartifact := congrArg Task.artifact (Option.some.inj htask)
    dsimp only at hartifact
    exact ⟨_, hartifact.symm⟩

/-- No artifact of a batch is called like what stands beside another one, if the extension is a
name without points, and neither that of locks nor that of the files written first. -/
theorem apart_of_extension (hempty : b.settings.extension ≠ "")
    (hslash : '/' ∉ b.settings.extension.toList) (hpoint : '.' ∉ b.settings.extension.toList)
    (hlock : b.settings.extension ≠ "lock") (htemp : b.settings.extension ≠ "tmp") :
    ∀ t ∈ b.tasks directory invs, ∀ u ∈ b.tasks directory invs, t.artifact.Apart u.artifact := by
  have hname {t : Task} (ht : t ∈ b.tasks directory invs) :
      ∃ stem : List Char, t.artifact.name.toList = stem ++ '.' :: b.settings.extension.toList := by
    obtain ⟨source, hsource⟩ := exists_artifactPath_of_mem_tasks ht
    rw [hsource]
    exact exists_name_artifactPath source directory hempty hslash
  intro t ht u hu
  obtain ⟨stem, hstem⟩ := hname ht
  constructor
  · intro h
    rw [h, String.toList_append] at hstem
    have heq := extension_inj (e := "lock".toList) (by decide) hpoint hstem
    exact hlock (String.toList_inj.1 heq).symm
  · intro h
    rw [h, String.toList_append] at hstem
    have heq := extension_inj (e := "tmp".toList) (by decide) hpoint hstem
    exact htemp (String.toList_inj.1 heq).symm

end Batch

/-! ### The batch -/

namespace Batch

variable {b : Batch} {directory : Path} {invs : List Invocation} {w : World} {p : Pool}

/-- How a place may differ after a batch. -/
inductive Change (directory : Path) (before : FileSystem) (p : Pool) (q : Place) : Prop
  /-- A new directory on the way to the output directory. -/
  | made {k : Nat} (new : before.get? q = none) (there : p.files.get? q = some .directory)
    (place : p.files.place? (directory.above k) = some q)
  /-- A new artifact, with all that its worker was to write. -/
  | dumped {v : Worker} {text : String} (new : before.get? q = none) (taken : .taken v ∈ p.jobs)
    (dumped : v.phase.Dumped) (place : p.files.place? v.artifact = some q) (writes : v.Writes text)
    (there : p.files.get? q = some (.file (Utf8.encode text)))
  /-- An older file where an artifact that came to be dumped was written first, which is gone. -/
  | stale {v : Worker} {content : List UInt8} (was : before.get? q = some (.file content))
    (taken : .taken v ∈ p.jobs) (dumping : v.Dumping)
    (place : p.files.place? (tempPath v.artifact) = some q) (gone : p.files.get? q = none)

/-- What a batch leaves behind, compared with the files before it. -/
structure Atomic (b : Batch) (directory : Path) (invs : List Invocation) (before : FileSystem)
    (p : Pool) : Prop where
  /-- Each worker has handled its task of the batch. -/
  task : ∀ (i : Nat) (v : Worker), p.jobs[i]? = some (.taken v) →
    v.batch = b ∧ (b.tasks directory invs)[i]? = some v.task
  /-- Nothing else changes. -/
  changes : ∀ q, p.files.get? q = before.get? q ∨ Change directory before p q
  /-- What was dumped was not there and is there, with all that its worker was to write. -/
  dumped : ∀ v, .taken v ∈ p.jobs → v.phase.Dumped → ∃ text, v.Writes text ∧
    before.at? v.artifact = none ∧ p.files.at? v.artifact = some (.file (Utf8.encode text))
  /-- No two workers have dumped the same artifact. -/
  once : ∀ (i j : Nat) (v u : Worker), p.jobs[i]? = some (.taken v) →
    p.jobs[j]? = some (.taken u) → v.phase.Dumped → u.phase.Dumped →
      p.files.place? v.artifact = p.files.place? u.artifact → i = j
  /-- An artifact that was there stays as it was. -/
  artifacts : ∀ t ∈ b.tasks directory invs, ∀ e, before.at? t.artifact = some e →
    p.files.at? t.artifact = some e
  /-- A lock that was there stays as it was. -/
  locks : ∀ t ∈ b.tasks directory invs, ∀ e, before.at? (lockPath t.artifact) = some e →
    p.files.at? (lockPath t.artifact) = some e
  /-- No new lock is left behind. -/
  noLock : ∀ t ∈ b.tasks directory invs, ∀ q content,
    p.files.place? (lockPath t.artifact) = some q → p.files.get? q = some (.file content) →
      before.get? q = some (.file content)
  /-- No new file beside an artifact is left behind. -/
  noTemp : ∀ t ∈ b.tasks directory invs, ∀ q content,
    p.files.place? (tempPath t.artifact) = some q → p.files.get? q = some (.file content) →
      before.get? q = some (.file content)

theorem isNew_pool (b : Batch) (directory : Path) (invs : List Invocation) (w : World) :
    ((b.pool directory invs w).crew b).IsNew := by
  intro v hv
  simp only [pool, Pool.crew, List.map_map, List.mem_map, Function.comp_apply] at hv
  obtain ⟨t, -, rfl⟩ := hv
  rfl

/-- Each worker has taken its task of the batch. -/
theorem task_of_reaches (hreach : Pool.Reaches b (b.pool directory invs w) p) {i : Nat} {job : Job}
    (hi : p.jobs[i]? = some job) :
    (job.worker b).batch = b ∧ (b.tasks directory invs)[i]? = some (job.worker b).task := by
  obtain ⟨v, hv, hbatch, htask⟩ := (Pool.crew_reaches hreach).job (Pool.getElem?_crew b hi)
  rw [pool, Pool.crew, List.getElem?_map, List.getElem?_map] at hv
  cases ht : (b.tasks directory invs)[i]? with
  | none => rw [ht] at hv; exact absurd hv (by simp)
  | some t =>
    rw [ht] at hv
    obtain rfl := Option.some.inj hv
    exact ⟨hbatch, congrArg some htask.symm⟩

theorem mem_tasks_of_reaches (hreach : Pool.Reaches b (b.pool directory invs w) p) {v : Worker}
    (hv : .taken v ∈ p.jobs) : v.task ∈ b.tasks directory invs := by
  obtain ⟨i, hi⟩ := List.mem_iff_getElem?.1 hv
  exact List.mem_of_getElem? (task_of_reaches hreach hi).2

/-- What the workers of a batch keep, from the files with the output directory on. -/
theorem sound_of_reaches
    (htree : w.files.IsTree)
    (hapart : ∀ t ∈ b.tasks directory invs, ∀ u ∈ b.tasks directory invs,
      t.artifact.Apart u.artifact)
    (hreach : Pool.Reaches b (b.pool directory invs w) p) :
    Crew.Sound (b.pool directory invs w).files (p.crew b) := by
  have hsound : Crew.Sound (b.pool directory invs w).files ((b.pool directory invs w).crew b) := by
    refine .of_isNew (isNew_pool b directory invs w) fun v hv u hu => ?_
    simp only [pool, Pool.crew, List.map_map, List.mem_map, Function.comp_apply] at hv hu
    obtain ⟨t, ht, rfl⟩ := hv
    obtain ⟨t', ht', rfl⟩ := hu
    exact hapart t ht t' ht'
  exact hsound.reaches ((makeDirectories_grows w.files directory true).isTree htree)
    (Pool.crew_reaches hreach)

section

variable {before made : FileSystem} {v : Worker} {path : Path} {q : Place}
  (hgrows : Grows directory before made) (hs : Crew.Sound made (p.crew b)) (hover : p.IsOver)

include hgrows

theorem before_eq_none (h : made.get? q = none) : before.get? q = none := by
  rcases hgrows.entry q with heq | ⟨hnone, -, -⟩
  · rw [← heq, h]
  · exact hnone

theorem before_eq_file {content : List UInt8} (h : made.get? q = some (.file content)) :
    before.get? q = some (.file content) := by
  rcases hgrows.entry q with heq | ⟨-, hdir, -⟩
  · rw [← heq, h]
  · exact absurd (h.symm.trans hdir) (by simp)

/-- What was there before is there with the output directory, at the same place. -/
theorem exists_place_of_before {e : Entry} (h : before.at? path = some e) :
    ∃ q, made.place? path = some q ∧ before.get? q = some e ∧ made.get? q = some e := by
  cases hplace : before.place? path with
  | none => rw [at?, hplace] at h; exact absurd h (by simp)
  | some q =>
    rw [at?, hplace] at h
    have h : before.get? q = some e := h
    refine ⟨q, hgrows.keepsDirectories.place?_eq_some hplace, h, ?_⟩
    rcases hgrows.entry q with heq | ⟨hnone, -, -⟩
    · rw [heq, h]
    · exact absurd (h.symm.trans hnone) (by simp)

include hs

theorem dumped_of_sound (hv : .taken v ∈ p.jobs) (hdumped : v.phase.Dumped) :
    ∃ q text, made.place? v.artifact = some q ∧ (∃ d, q = d ++ [v.artifact.name]) ∧
      v.Writes text ∧ made.get? q = none ∧ before.get? q = none ∧
        p.files.get? q = some (.file (Utf8.encode text)) := by
  obtain ⟨i, hi⟩ := Pool.exists_getElem? (b := b) hv
  obtain ⟨-, d, text, hseats, hnew, hwrites, hthere⟩ := (hs.worker i v hi).completes hdumped
  exact ⟨_, text, hseats.file, ⟨d, rfl⟩, hwrites, hnew, before_eq_none hgrows hnew, hthere⟩

include hover

/-- Nothing but the output directory, what was dumped and older files beside that changes. -/
theorem changes_of_sound (q : Place) :
    p.files.get? q = before.get? q ∨ Change directory before p q := by
  have hplace {path : Path} (h : made.place? path = some q) : p.files.place? path = some q :=
    (hs.same.place?_eq path).trans h
  rcases Pool.changes_of_idle hs hover.isBusy_eq q with heq | ⟨v, hv, ⟨hdumped, hq⟩ |
    ⟨hdumping, hq, ⟨content, hwas⟩, hgone⟩⟩
  · rcases hgrows.entry q with heq' | ⟨hnone, hdir, k, hk⟩
    · exact .inl (heq.trans heq')
    · exact .inr (.made hnone (heq.trans hdir) (hplace hk))
  · obtain ⟨q', text, hq', -, hwrites, -, hnone, hthere⟩ := dumped_of_sound hgrows hs hv hdumped
    obtain rfl := Option.some.inj (hq.symm.trans hq')
    exact .inr (.dumped hnone hv hdumped (hplace hq) hwrites hthere)
  · exact .inr (.stale (before_eq_file hgrows hwas) hv hdumping (hplace hq) hgone)

/-- What was there before stays, unless an artifact was written there first. -/
theorem stays_of_sound {e : Entry} (h : before.at? path = some e)
    (htemp : ∀ v, .taken v ∈ p.jobs → ∀ q content, made.place? path = some q →
      made.place? (tempPath v.artifact) = some q → made.get? q ≠ some (.file content)) :
    p.files.at? path = some e := by
  obtain ⟨q, hq, -, hmade⟩ := exists_place_of_before hgrows h
  refine (hs.at?_eq_get? hq).trans ?_
  rcases Pool.changes_of_idle hs hover.isBusy_eq q with heq | ⟨v, hv, ⟨hdumped, hq'⟩ |
    ⟨-, hq', ⟨content, hwas⟩, -⟩⟩
  · exact heq.trans hmade
  · obtain ⟨q'', -, hq'', -, -, hnone, -, -⟩ := dumped_of_sound hgrows hs hv hdumped
    obtain rfl := Option.some.inj (hq'.symm.trans hq'')
    exact absurd (hmade.symm.trans hnone) (by simp)
  · exact absurd hwas (htemp v hv q content hq hq')

/-- A file at a place that is no artifact was there before. -/
theorem was_of_sound {content : List UInt8} (hplace : p.files.place? path = some q)
    (h : p.files.get? q = some (.file content))
    (hapart : ∀ v, .taken v ∈ p.jobs → ∀ d, made.place? path = some q →
      q ≠ d ++ [v.artifact.name]) :
    before.get? q = some (.file content) := by
  rcases Pool.changes_of_idle hs hover.isBusy_eq q with
    heq | ⟨v, hv, ⟨hdumped, hq⟩ | ⟨-, -, -, hgone⟩⟩
  · exact before_eq_file hgrows (heq.symm.trans h)
  · obtain ⟨q', -, hq', ⟨d, hd⟩, -⟩ := dumped_of_sound hgrows hs hv hdumped
    obtain rfl := Option.some.inj (hq.symm.trans hq')
    exact absurd hd (hapart v hv d ((hs.same.place?_eq path).symm.trans hplace))
  · exact absurd (h.symm.trans hgone) (by simp)

end

/-- **A batch is atomic.**  From files that form a tree, with the output directory made, any number
of workers that take their steps in any order, with any answers of the parser, leave a batch behind
that is atomic, whenever nothing more happens. -/
theorem atomic_of_isOver (htree : w.files.IsTree)
    (hapart : ∀ t ∈ b.tasks directory invs, ∀ u ∈ b.tasks directory invs,
      t.artifact.Apart u.artifact)
    (hreach : Pool.Reaches b (b.pool directory invs w) p) (hover : p.IsOver) :
    Atomic b directory invs w.files p := by
  have hgrows := makeDirectories_grows w.files directory true
  have htree' := hgrows.isTree htree
  have hs := sound_of_reaches htree hapart hreach
  have hmem {v : Worker} (hv : .taken v ∈ p.jobs) := mem_tasks_of_reaches hreach hv
  constructor
  · intro i v hi
    exact task_of_reaches hreach hi
  · exact changes_of_sound hgrows hs hover
  · intro v hv hdumped
    obtain ⟨q, text, hq, -, hwrites, -, hnone, hthere⟩ := dumped_of_sound hgrows hs hv hdumped
    refine ⟨text, hwrites, ?_, (hs.at?_eq_get? hq).trans hthere⟩
    -- what was there before the directory was made would be there at the start
    cases hbefore : w.files.at? v.artifact with
    | none => rfl
    | some e =>
      obtain ⟨q', hq', he, -⟩ := exists_place_of_before hgrows hbefore
      obtain rfl := Option.some.inj (hq.symm.trans hq')
      exact absurd (he.symm.trans hnone) (by simp)
  · intro i j v u hi hj hv hu heq
    have hworker {i : Nat} {v : Worker} (hi : p.jobs[i]? = some (.taken v)) :
        (p.crew b).workers[i]? = some v := by
      rw [Pool.crew, List.getElem?_map, hi]
      rfl
    refine hs.once i j v u (hworker hi) (hworker hj) hv hu ?_
    exact (hs.same.place?_eq _).symm.trans (heq.trans (hs.same.place?_eq _))
  · intro t ht e he
    refine stays_of_sound hgrows hs hover he fun v hv q content hq hq' hfile => ?_
    obtain ⟨d, rfl⟩ := exists_concat_of_place? (by decide) hq'
    rcases htree'.directory_or_concat hq with hdir | ⟨d', heq⟩
    · exact absurd (hfile.symm.trans hdir) (by simp)
    · -- an artifact is not where a worker writes first
      exact (hapart t ht v.task (hmem hv)).temp (concat_inj heq).2.symm
  · intro t ht e he
    refine stays_of_sound hgrows hs hover he fun v hv q content hq hq' _ => ?_
    obtain ⟨d, rfl⟩ := exists_concat_of_place? (by decide) hq
    obtain ⟨d', heq⟩ := exists_concat_of_place? (by decide) hq'
    -- a lock is not where a worker writes first
    exact lock_ne_temp d d' _ _ heq
  · intro t ht q content hq hfile
    -- only artifacts are made, and none is called like a lock
    refine was_of_sound hgrows hs hover hq hfile fun v hv d hq' heq => ?_
    obtain ⟨d', rfl⟩ := exists_concat_of_place? (by decide) hq'
    exact (hapart v.task (hmem hv) t ht).lock (concat_inj heq).2.symm
  · intro t ht q content hq hfile
    -- nor like a file that is written first
    refine was_of_sound hgrows hs hover hq hfile fun v hv d hq' heq => ?_
    obtain ⟨d', rfl⟩ := exists_concat_of_place? (by decide) hq'
    exact (hapart v.task (hmem hv) t ht).temp (concat_inj heq).2.symm

/-! ### A batch of two sources -/

/-- The directory that two sources are written to. -/
def smallDirectory : Path := ⟨.relative, ["out"]⟩

/-- A batch that writes to that directory. -/
def smallBatch : Batch := ⟨.standard "" smallDirectory, .standard, .everything, ⟨[]⟩⟩

/-- One invocation with two sources. -/
def smallInvocation : Invocation := { Invocation.empty with inputs := ["a.c", "b.c"] }

/-- Where something stands behind that batch. -/
def smallPlaces : List Place :=
  [["work"], ["work", "out"], ["work", "out", "a.obj"], ["work", "out", "b.obj"]]

/-- Handling two sources one after another is atomic. -/
theorem atomic_smallBatch :
    ∃ p, World.fresh.files.IsTree ∧
      (∀ t ∈ smallBatch.tasks smallDirectory [smallInvocation],
        ∀ u ∈ smallBatch.tasks smallDirectory [smallInvocation], t.artifact.Apart u.artifact) ∧
      Pool.Reaches smallBatch (smallBatch.pool smallDirectory [smallInvocation] .fresh) p ∧
      p.IsOver ∧ p.files.entries.map Prod.fst = smallPlaces ∧
      Atomic smallBatch smallDirectory [smallInvocation] World.fresh.files p := by
  have hmake : (World.fresh.files.makeDirectories smallDirectory true).2 = .ok () := by
    decide +kernel
  have hrun : ((smallBatch.run [smallInvocation]).runIn
      Crew.findsNothing .fresh).2.files.entries.map Prod.fst = smallPlaces := by
    decide +kernel
  have hapart : ∀ t ∈ smallBatch.tasks smallDirectory [smallInvocation],
      ∀ u ∈ smallBatch.tasks smallDirectory [smallInvocation], t.artifact.Apart u.artifact :=
    apart_of_extension (by decide) (by decide) (by decide) (by decide) (by decide)
  have hworkers : 0 < smallBatch.settings.workers := by decide
  obtain ⟨p, hreach, hover, hfiles⟩ :=
    run_reaches [smallInvocation] Crew.findsNothing hworkers rfl hmake
  refine ⟨p, .fresh, hapart, hreach, hover, ?_, atomic_of_isOver .fresh hapart hreach hover⟩
  rw [hfiles]
  exact hrun

end Batch

end DeclGraph
