import DeclGraph.Proofs.Batch.Step

/-!
# Crews

A `Crew` is any number of workers on the same files.  In a step one of them, whichever it may be,
gets its next request answered, and a parse may be answered with any attempt (`Crew.StepOf`).

`Crew.Sound` is what every step keeps (`Crew.Sound.stepOf`): each worker knows what it may rely on,
no two workers hold the same lock, and every place where the files differ from those at the start
is accounted for by a worker.  A worker never changes what another one relies on
(`Crew.Sound.not_guards`).
-/

namespace DeclGraph

open FileSystem

/-- An artifact is called neither like the lock of another one nor like the file that the other one
is written to first. -/
structure Path.Apart (a b : Path) : Prop where
  /-- The artifact is no lock. -/
  lock : a.name ≠ b.name ++ ".lock"
  /-- The artifact is no file that another one is written to first. -/
  temp : a.name ≠ b.name ++ ".tmp"

/-- Workers on the same files. -/
structure Crew where
  /-- The files, the log and the parses so far. -/
  world : World
  /-- The workers. -/
  workers : List Worker

namespace Crew

variable {start : FileSystem} {c c' : Crew} {i j : Nat} {v u : Worker} {p : Place}

/-- The files of a crew. -/
abbrev files (c : Crew) : FileSystem := c.world.files

/-- One of the workers takes a step. -/
def StepOf (i : Nat) (c c' : Crew) : Prop :=
  ∃ frontEnd v v' w', c.workers[i]? = some v ∧ v.step frontEnd c.world = some (v', w') ∧
    c' = ⟨w', c.workers.set i v'⟩

/-- Any worker takes a step. -/
def Step (c c' : Crew) : Prop := ∃ i, StepOf i c c'

/-- Workers take steps in any order. -/
def Reaches : Crew → Crew → Prop := Relation.ReflTransGen Step

/-- The crew after a step of one of the workers, with the answers of a front end. -/
def act (frontEnd : FrontEnd) (c : Crew) (i : Nat) : Option Crew := do
  let v ← c.workers[i]?
  let (v', w') ← v.step frontEnd c.world
  return ⟨w', c.workers.set i v'⟩

theorem StepOf.of_act {frontEnd : FrontEnd} (h : c.act frontEnd i = some c') : StepOf i c c' := by
  obtain ⟨v, hi, h⟩ := Option.bind_eq_some_iff.1 h
  obtain ⟨⟨v', w'⟩, hstep, h⟩ := Option.bind_eq_some_iff.1 h
  exact ⟨frontEnd, v, v', w', hi, hstep, (Option.some.inj h).symm⟩

/-- Workers that act one after another reach what comes of it. -/
theorem Reaches.of_act {frontEnd : FrontEnd} {order : List Nat}
    (h : order.foldlM (act frontEnd) c = some c') : Reaches c c' := by
  induction order generalizing c with
  | nil =>
    obtain rfl := Option.some.inj h
    exact .refl
  | cons i order ih =>
    rw [List.foldlM_cons] at h
    obtain ⟨c₁, hact, h⟩ := Option.bind_eq_some_iff.1 h
    exact .head ⟨i, .of_act hact⟩ (ih h)

/-- No worker has begun. -/
def IsNew (c : Crew) : Prop := ∀ v ∈ c.workers, v.phase = .looking

theorem StepOf.job (h : StepOf i c c') (hj : c'.workers[j]? = some u) :
    ∃ v, c.workers[j]? = some v ∧ u.batch = v.batch ∧ u.task = v.task := by
  obtain ⟨frontEnd, v, v', w', hi, hstep, rfl⟩ := h
  rcases (getElem?_set_eq_some_iff hi).1 hj with ⟨rfl, rfl⟩ | ⟨-, hj⟩
  · exact ⟨v, hi, Worker.task_of_step hstep⟩
  · exact ⟨u, hj, rfl, rfl⟩

/-- A worker keeps its batch and its task. -/
theorem Reaches.job (h : Reaches c c') (hj : c'.workers[j]? = some u) :
    ∃ v, c.workers[j]? = some v ∧ u.batch = v.batch ∧ u.task = v.task := by
  induction h generalizing u with
  | refl => exact ⟨u, hj, rfl, rfl⟩
  | tail _ hstep ih =>
    obtain ⟨i, hstep⟩ := hstep
    obtain ⟨t, ht, hbatch, htask⟩ := hstep.job hj
    obtain ⟨v, hv, hbatch', htask'⟩ := ih ht
    exact ⟨v, hv, hbatch.trans hbatch', htask.trans htask'⟩

/-- What every step of a worker keeps holds of all workers if it holds of all at the start. -/
theorem Reaches.forall_workers {P : Worker → Prop}
    (hstep : ∀ {frontEnd : FrontEnd} {v v' : Worker} {w w' : World}, P v →
      v.step frontEnd w = some (v', w') → P v')
    (h : Reaches c c') (hc : ∀ v ∈ c.workers, P v) : ∀ v ∈ c'.workers, P v := by
  induction h with
  | refl => exact hc
  | tail _ hstepOf ih =>
    obtain ⟨i, frontEnd, v, v', w', hi, hact, rfl⟩ := hstepOf
    intro u hu
    rcases List.mem_or_eq_of_mem_set hu with hu | rfl
    · exact ih u hu
    · exact hstep (ih v (List.mem_of_getElem? hi)) hact

/-- No two workers of a kind have the same place. -/
def Distinct (workers : List Worker) (kind : Worker → Prop) (place? : Worker → Option Place) :
    Prop :=
  ∀ (i j : Nat) (v u : Worker), workers[i]? = some v → workers[j]? = some u → kind v → kind u →
    place? v = place? u → i = j

/-- Workers stay distinct if the one that takes a step stays so. -/
theorem Distinct.set {kind : Worker → Prop} {place? : Worker → Option Place} {v' : Worker}
    (h : Distinct c.workers kind place?) (hi : c.workers[i]? = some v)
    (hne : ∀ j u, c.workers[j]? = some u → j ≠ i → kind v' → kind u → place? v' ≠ place? u) :
    Distinct (c.workers.set i v') kind place? := by
  intro j k u t hj hk hu ht heq
  rcases (getElem?_set_eq_some_iff hi).1 hj with ⟨rfl, rfl⟩ | ⟨hji, hj'⟩
  · rcases (getElem?_set_eq_some_iff hi).1 hk with ⟨rfl, rfl⟩ | ⟨hki, hk'⟩
    · rfl
    · exact absurd heq (hne k t hk' hki hu ht)
  · rcases (getElem?_set_eq_some_iff hi).1 hk with ⟨rfl, rfl⟩ | ⟨-, hk'⟩
    · exact absurd heq.symm (hne j u hj' hji ht hu)
    · exact h j k u t hj' hk' hu ht heq

/-! ### The invariant -/

/-- What every step keeps. -/
structure Sound (start : FileSystem) (c : Crew) : Prop where
  /-- The directories are those at the start. -/
  same : SameDirectories start c.files
  /-- No artifact is called like what stands beside another one. -/
  apart : ∀ (i j : Nat) (v u : Worker), c.workers[i]? = some v → c.workers[j]? = some u →
    v.artifact.Apart u.artifact
  /-- Each worker knows what it may rely on. -/
  worker : ∀ (i : Nat) (v : Worker), c.workers[i]? = some v → v.Sound start c.files
  /-- No two workers hold the same lock. -/
  exclusive : Distinct c.workers (·.phase.Holds) fun v => start.place? (lockPath v.artifact)
  /-- No two workers have dumped the same artifact. -/
  once : Distinct c.workers (·.phase.Dumped) fun v => start.place? v.artifact
  /-- What differs from the start is accounted for. -/
  frame : ∀ p, c.files.get? p = start.get? p ∨
    ∃ (i : Nat) (v : Worker), c.workers[i]? = some v ∧ v.Touches start c.files p

namespace Sound

/-- A crew that has not begun. -/
theorem of_isNew (hnew : c.IsNew)
    (hapart : ∀ v ∈ c.workers, ∀ u ∈ c.workers, v.artifact.Apart u.artifact) :
    Sound c.files c where
  same := .refl _
  apart i j v u hi hj := hapart v (List.mem_of_getElem? hi) u (List.mem_of_getElem? hj)
  worker i v hi := by
    rw [Worker.Sound, hnew v (List.mem_of_getElem? hi)]
    trivial
  exclusive i j v u hi _ hholds := by
    dsimp only at hholds
    rw [hnew v (List.mem_of_getElem? hi)] at hholds
    exact absurd hholds id
  once i j v u hi _ hdumped :=
    absurd hdumped (Phase.not_dumped (by rw [hnew v (List.mem_of_getElem? hi)]; rfl))
  frame p := .inl rfl

theorem at?_eq_get? (hs : Sound start c) {path : Path} (hp : start.place? path = some p) :
    c.files.at? path = c.files.get? p := by
  rw [at?, hs.same.place?_eq, hp]
  rfl

/-- What is not there was not there at the start, unless an artifact is written there first. -/
theorem get?_start_eq_none (hs : Sound start c) (hnone : c.files.get? p = none)
    (htemp : ∀ (i : Nat) (v : Worker), c.workers[i]? = some v →
      start.place? (tempPath v.artifact) ≠ some p) :
    start.get? p = none := by
  rcases hs.frame p with heq | ⟨i, v, hi, htouches⟩
  · rw [← heq, hnone]
  · cases htouches with
    | lock holds place =>
      obtain ⟨q, hclaims⟩ := (hs.worker i v hi).claims holds
      obtain rfl := Option.some.inj (place.symm.trans hclaims.place)
      exact absurd (hnone.symm.trans hclaims.there) (by simp)
    | temp busy place => exact absurd place (htemp i v hi)
    | artifact dumped place =>
      obtain ⟨-, d, text, hseats, -, -, hthere⟩ := (hs.worker i v hi).completes dumped
      obtain rfl := Option.some.inj (place.symm.trans hseats.file)
      exact absurd (hnone.symm.trans hthere) (by simp)
    | stale settled dumping place => exact absurd place (htemp i v hi)

theorem lock_new (hs : Sound start c) (hplace : start.place? (lockPath v.artifact) = some p)
    (hnone : c.files.get? p = none) : start.get? p = none := by
  refine hs.get?_start_eq_none hnone fun j u hj htemp => ?_
  obtain ⟨d, rfl⟩ := exists_concat_of_place? (by decide) hplace
  obtain ⟨d', heq⟩ := exists_concat_of_place? (by decide) htemp
  exact lock_ne_temp d d' _ _ heq

theorem artifact_new (hs : Sound start c) (hi : c.workers[i]? = some v) (d : Place)
    (hnone : c.files.get? (d ++ [v.artifact.name]) = none) :
    start.get? (d ++ [v.artifact.name]) = none := by
  refine hs.get?_start_eq_none hnone fun j u hj htemp => ?_
  obtain ⟨d', heq⟩ := exists_concat_of_place? (by decide) htemp
  exact (hs.apart i j v u hi hj).temp (concat_inj heq).2

theorem eq_of_makes (hs : Sound start c) (hi : c.workers[i]? = some v)
    (hj : c.workers[j]? = some u) (hv : v.phase.Works) (hu : u.phase.Works) {d : Place}
    (hmakes : Makes start c.files v.artifact d) (hmakes' : Makes start c.files u.artifact d)
    (hname : v.artifact.name = u.artifact.name) : i = j := by
  refine hs.exclusive i j v u hi hj hv.holds hu.holds ?_
  dsimp only
  rw [hmakes.seats.lock, hmakes'.seats.lock, hname]

/-- No other worker relies on a lock that a worker takes or gives back. -/
theorem not_guards_lock (hs : Sound start c) (hi : c.workers[i]? = some v)
    (hj : c.workers[j]? = some u) (hne : i ≠ j)
    (hplace : start.place? (lockPath v.artifact) = some p)
    (hlock : c.files.get? p = none ∨ v.phase.Holds) : ¬ u.Guards start p := by
  obtain ⟨d, hd⟩ := exists_concat_of_place? (by decide) hplace
  intro hguards
  cases hguards with
  | lock holds place =>
    -- a lock that the other one holds is there, and is not held twice
    rcases hlock with hfree | hholds
    · obtain ⟨q, hclaims⟩ := (hs.worker j u hj).claims holds
      obtain rfl := Option.some.inj (place.symm.trans hclaims.place)
      exact absurd (hfree.symm.trans hclaims.there) (by simp)
    · exact hne (hs.exclusive i j v u hi hj hholds holds (hplace.trans place.symm))
  | temp works place =>
    obtain ⟨d', hd'⟩ := exists_concat_of_place? (by decide) place
    exact lock_ne_temp d d' _ _ (hd.symm.trans hd')
  | artifact busy place =>
    obtain ⟨d', hd'⟩ := (hs.worker j u hj).exists_concat busy place
    exact (hs.apart j i u v hj hi).lock (concat_inj (hd'.symm.trans hd)).2

/-- No other worker relies on the place where a worker writes first. -/
theorem not_guards_temp (hs : Sound start c) (hi : c.workers[i]? = some v)
    (hj : c.workers[j]? = some u) (hne : i ≠ j)
    (hplace : start.place? (tempPath v.artifact) = some p) (hworks : v.phase.Works) :
    ¬ u.Guards start p := by
  obtain ⟨d, hmakes⟩ := (hs.worker i v hi).makes hworks
  have hd : p = d ++ [v.artifact.name ++ ".tmp"] :=
    Option.some.inj (hplace.symm.trans hmakes.seats.temp)
  intro hguards
  cases hguards with
  | lock holds place =>
    obtain ⟨d', hd'⟩ := exists_concat_of_place? (by decide) place
    exact lock_ne_temp d' d _ _ (hd'.symm.trans hd)
  | temp works place =>
    obtain ⟨d', hmakes'⟩ := (hs.worker j u hj).makes works
    have hd' : p = d' ++ [u.artifact.name ++ ".tmp"] :=
      Option.some.inj (place.symm.trans hmakes'.seats.temp)
    obtain ⟨rfl, hname⟩ := concat_inj (hd.symm.trans hd')
    have hname' := (String.append_left_inj _).1 hname
    exact hne (hs.eq_of_makes hi hj hworks works hmakes hmakes' hname')
  | artifact busy place =>
    obtain ⟨d', hd'⟩ := (hs.worker j u hj).exists_concat busy place
    exact (hs.apart j i u v hj hi).temp (concat_inj (hd'.symm.trans hd)).2

/-- No other worker relies on the artifact that a worker makes. -/
theorem not_guards_artifact (hs : Sound start c) (hi : c.workers[i]? = some v)
    (hj : c.workers[j]? = some u) (hne : i ≠ j) (hplace : start.place? v.artifact = some p)
    (hworks : v.phase.Works) : ¬ u.Guards start p := by
  obtain ⟨d, hmakes⟩ := (hs.worker i v hi).makes hworks
  have hd : p = d ++ [v.artifact.name] :=
    Option.some.inj (hplace.symm.trans hmakes.seats.file)
  intro hguards
  cases hguards with
  | lock holds place =>
    obtain ⟨d', hd'⟩ := exists_concat_of_place? (by decide) place
    exact (hs.apart i j v u hi hj).lock (concat_inj (hd.symm.trans hd')).2
  | temp works place =>
    obtain ⟨d', hd'⟩ := exists_concat_of_place? (by decide) place
    exact (hs.apart i j v u hi hj).temp (concat_inj (hd.symm.trans hd')).2
  | artifact busy place =>
    rcases busy with works | dumped
    · obtain ⟨d', hmakes'⟩ := (hs.worker j u hj).makes works
      have hd' : p = d' ++ [u.artifact.name] :=
        Option.some.inj (place.symm.trans hmakes'.seats.file)
      -- two artifacts of one name in one directory have one lock
      obtain ⟨rfl, hname⟩ := concat_inj (hd.symm.trans hd')
      exact hne (hs.eq_of_makes hi hj hworks works hmakes hmakes' hname)
    · -- what another worker has dumped is there, and what this one makes is not
      obtain ⟨-, d', text, hseats, -, -, hthere⟩ := (hs.worker j u hj).completes dumped
      obtain rfl := Option.some.inj (place.symm.trans hseats.file)
      have habsent := hmakes.absent
      rw [← hd] at habsent
      exact absurd (habsent.symm.trans hthere) (by simp)

/-- A worker never changes what another one relies on. -/
theorem not_guards (hs : Sound start c) (hi : c.workers[i]? = some v)
    (hj : c.workers[j]? = some u) (hne : i ≠ j) (hmay : v.MayChange start c.files p) :
    ¬ u.Guards start p := by
  cases hmay with
  | claim place free => exact hs.not_guards_lock hi hj hne place (.inl free)
  | lock holds place => exact hs.not_guards_lock hi hj hne place (.inr holds)
  | temp works place => exact hs.not_guards_temp hi hj hne place works
  | artifact works place => exact hs.not_guards_artifact hi hj hne place works

/-! ### Steps -/

theorem effect (htree : start.IsTree) (hs : Sound start c) (hi : c.workers[i]? = some v)
    {frontEnd : FrontEnd} {v' : Worker} {w' : World}
    (hstep : v.step frontEnd c.world = some (v', w')) :
    Worker.Effect start v c.files v' w'.files :=
  Worker.effect_of_step htree hs.same (hs.worker i v hi) (fun _ => hs.lock_new)
    (fun d _ => hs.artifact_new hi d) hstep

/-- Who comes to hold a lock holds another one than the other workers. -/
theorem lock_ne_of_effect (hs : Sound start c) (hi : c.workers[i]? = some v) {v' : Worker}
    {fs' : FileSystem} (heffect : Worker.Effect start v c.files v' fs')
    (hholds : v'.phase.Holds) (hj : c.workers[j]? = some u) (hji : j ≠ i)
    (hu : u.phase.Holds) :
    start.place? (lockPath v'.artifact) ≠ start.place? (lockPath u.artifact) := by
  intro heq
  rw [heffect.artifact_eq] at heq
  rcases heffect.holds hholds with hv | ⟨p, hplace, hfree⟩
  · exact hji (hs.exclusive i j v u hi hj hv hu heq).symm
  · obtain ⟨q, hclaims⟩ := (hs.worker j u hj).claims hu
    obtain rfl := Option.some.inj (hplace.symm.trans (heq.trans hclaims.place))
    exact absurd (hfree.symm.trans hclaims.there) (by simp)

/-- Who comes to have dumped an artifact has dumped another one than the other workers. -/
theorem artifact_ne_of_effect (hs : Sound start c) (hi : c.workers[i]? = some v) {v' : Worker}
    {fs' : FileSystem} (heffect : Worker.Effect start v c.files v' fs')
    (hdumped : v'.phase.Dumped) (hj : c.workers[j]? = some u) (hji : j ≠ i)
    (hu : u.phase.Dumped) : start.place? v'.artifact ≠ start.place? u.artifact := by
  intro heq
  rw [heffect.artifact_eq] at heq
  rcases heffect.dumps hdumped with hv | ⟨p, hplace, hfree⟩
  · exact hji (hs.once i j v u hi hj hv hu heq).symm
  · obtain ⟨-, d, text, hseats, -, -, hthere⟩ := (hs.worker j u hj).completes hu
    obtain rfl := Option.some.inj (hplace.symm.trans (heq.trans hseats.file))
    exact absurd (hfree.symm.trans hthere) (by simp)

/-- What is accounted for after a step. -/
theorem frame_of_effect (hs : Sound start c) (hi : c.workers[i]? = some v) {v' : Worker}
    {fs' : FileSystem} (heffect : Worker.Effect start v c.files v' fs') (p : Place) :
    fs'.get? p = start.get? p ∨
      ∃ (j : Nat) (u : Worker), (c.workers.set i v')[j]? = some u ∧ u.Touches start fs' p := by
  have hself : (c.workers.set i v')[i]? = some v' :=
    (getElem?_set_eq_some_iff hi).2 (.inl ⟨rfl, rfl⟩)
  rcases heffect.changes p with heq | ⟨-, heq | htouches⟩
  · rcases hs.frame p with heq' | ⟨j, u, hj, htouches⟩
    · exact .inl (heq.trans heq')
    · by_cases hji : j = i
      · subst hji
        obtain rfl := Option.some.inj (hi.symm.trans hj)
        rcases heffect.touches p heq htouches with heq' | htouches'
        · exact .inl heq'
        · exact .inr ⟨j, v', hself, htouches'⟩
      · refine .inr ⟨j, u, (getElem?_set_eq_some_iff hi).2 (.inr ⟨hji, hj⟩), ?_⟩
        exact htouches.of_get?_eq heq
  · exact .inl heq
  · exact .inr ⟨i, v', hself, htouches⟩

/-- Every step keeps the invariant. -/
theorem stepOf (htree : start.IsTree) (hs : Sound start c) (h : StepOf i c c') :
    Sound start c' := by
  obtain ⟨frontEnd, v, v', w', hi, hstep, rfl⟩ := h
  have heffect := hs.effect htree hi hstep
  refine ⟨hs.same.trans heffect.same, ?_, ?_, ?_, ?_, ?_⟩
  · -- the artifacts are those of before, whoever took the step
    intro j k u t hj hk
    have hartifact {j : Nat} {u : Worker} (hj : (c.workers.set i v')[j]? = some u) :
        ∃ (j' : Nat) (u' : Worker), c.workers[j']? = some u' ∧ u.artifact = u'.artifact := by
      rcases (getElem?_set_eq_some_iff hi).1 hj with ⟨-, rfl⟩ | ⟨-, hj⟩
      · exact ⟨i, v, hi, heffect.artifact_eq⟩
      · exact ⟨j, u, hj, rfl⟩
    obtain ⟨j', u', hj', hu'⟩ := hartifact hj
    obtain ⟨k', t', hk', ht'⟩ := hartifact hk
    rw [hu', ht']
    exact hs.apart j' k' u' t' hj' hk'
  · intro j u hj
    rcases (getElem?_set_eq_some_iff hi).1 hj with ⟨-, rfl⟩ | ⟨hji, hj⟩
    · exact heffect.sound
    · -- what the step may change is nothing that another worker relies on
      refine (hs.worker j u hj).of_unchanged fun p hguards => ?_
      rcases heffect.changes p with heq | ⟨hmay, -⟩
      · exact heq
      · exact absurd hguards (hs.not_guards hi hj (Ne.symm hji) hmay)
  · exact hs.exclusive.set hi fun j u hj hji hholds =>
      hs.lock_ne_of_effect hi heffect hholds hj hji
  · exact hs.once.set hi fun j u hj hji hdumped =>
      hs.artifact_ne_of_effect hi heffect hdumped hj hji
  · exact hs.frame_of_effect hi heffect

theorem reaches (htree : start.IsTree) (hs : Sound start c) (h : Reaches c c') :
    Sound start c' := by
  induction h with
  | refl => exact hs
  | tail _ hstep ih =>
    obtain ⟨i, hstep⟩ := hstep
    exact ih.stepOf htree hstep

/-- Who has dumped stays so in every step of the crew. -/
theorem dumped_of_stepOf (htree : start.IsTree) (hs : Sound start c) (h : StepOf i c c')
    (hj : c.workers[j]? = some u) (hdumped : u.phase.Dumped) :
    ∃ u', c'.workers[j]? = some u' ∧ u'.phase.Dumped := by
  obtain ⟨frontEnd, v, v', w', hi, hstep, rfl⟩ := h
  by_cases hji : j = i
  · subst hji
    obtain rfl := Option.some.inj (hi.symm.trans hj)
    exact ⟨v', (getElem?_set_eq_some_iff hi).2 (.inl ⟨rfl, rfl⟩),
      (hs.effect htree hi hstep).dumped hdumped⟩
  · exact ⟨u, (getElem?_set_eq_some_iff hi).2 (.inr ⟨hji, hj⟩), hdumped⟩

/-- Who has dumped stays so. -/
theorem dumped_of_reaches (htree : start.IsTree) (hs : Sound start c) (h : Reaches c c')
    (hj : c.workers[j]? = some u) (hdumped : u.phase.Dumped) :
    ∃ u', c'.workers[j]? = some u' ∧ u'.phase.Dumped := by
  induction h with
  | refl => exact ⟨u, hj, hdumped⟩
  | tail hreach hstep ih =>
    obtain ⟨i, hstep⟩ := hstep
    obtain ⟨u', hj', hdumped'⟩ := ih
    exact (hs.reaches htree hreach).dumped_of_stepOf htree hstep hj' hdumped'

end Sound

end Crew

end DeclGraph
